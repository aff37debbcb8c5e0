import EndlessRunner.Laws.Board
import EndlessRunner.Laws.Endless
import EndlessRunner.Laws.Riding
import Mathlib.Algebra.Order.Archimedean.Basic

/-!
# Where the trigger box belongs

A tile goes to the end of the road as soon as its trigger box meets the runner's, whether he has left it or not, and
the obstacles on it are destroyed. So two things are a matter of where the box is. Whether the runner always has
ground to run on: the box is far enough beyond the end of the tile, and not so far that the road ends before it is
met (`World.underfoot_iff`). And whether obstacles are seen to vanish: not where the box is far enough beyond them
(`World.obstacles_vanish_behind`).
-/

set_option autoImplicit false

namespace EndlessRunner

open Lib (Machine)
open Lib.Belt (place place_add place_succ)
open Lib.Rounding

variable {K : Type} [Field K]

/-! ## Frames that cover equal distances -/

variable [LinearOrder K] [IsStrictOrderedRing K]

namespace World

/-- The player is over a tile of the pool, between its root and its attach point. -/
def Underfoot (w : World K) : Prop :=
  ∃ t, some t ∈ w.gameMode.groundTiles ∧ (w.tiles t).location.x ≤ w.character.location.x ∧
    w.character.location.x ≤ (w.tiles t).attachTransform.translation.x

variable {c : TileClass K} {start : FTransform K} {reach x pitch ahead d : K} {m : ℕ} {w : World K}

/-- The pool is one piece of road, from its first tile to the end of its last. -/
theorem Rolling.stands_iff (h : Rolling c start reach x pitch d m w) (regular : c.Regular start pitch ahead reach)
    (hpitch : 0 < pitch) (hsome : 0 < w.numTiles) :
    Underfoot w ↔ place x pitch d m ≤ ahead ∧ ahead ≤ place x pitch d (m + w.numTiles) := by
  obtain ⟨ids, hpool, _, hshows⟩ := h.window
  have hne : ids ≠ [] := by
    rintro rfl
    exact hsome.ne hpool.length_eq
  rw [← hpool.length_eq, ← hshows.exists_cover_iff hpitch hne]
  apply exists_congr
  intro t
  rw [hpool.some_mem]
  apply and_congr_right
  intro ht
  have hlt := (hpool.mem_iff t).mp ht
  rw [h.oriented.triggerOffset_eq regular hlt, h.oriented.attach_x regular hlt]
  constructor
  · intro ⟨hlo, hhi⟩
    exact ⟨by linarith, by linarith⟩
  · intro ⟨hlo, hhi⟩
    exact ⟨by linarith, by linarith⟩

omit [IsStrictOrderedRing K] in
/-- How many tiles are taken is known where they are. -/
theorem Rolling.count_eq (h : Rolling c start reach x pitch d m w) {n : ℕ}
    (htaken : ∀ k, n = k + 1 → place x pitch d k ≤ reach) (hleft : reach < place x pitch d n) :
    m = n := by
  have hle : m ≤ n := le_of_not_gt fun hlt => absurd ((h.taken n).mp hlt) (not_le_of_gt hleft)
  have hge : n ≤ m := by
    cases n with
    | zero => exact Nat.zero_le m
    | succ k => exact (h.taken k).mpr (htaken k rfl)
  exact le_antisymm hle hge

variable [Archimedean K] {w₀ : World K} {a : BeginPlayAnswers K}

end World

/-! ## What vanishes with a tile -/

/-- On every tile the lane arrows are at most `beyond` further than the root, and the trigger box at least `ahead`. The
boxes are not turned, and meet the player's within `reach` at most. -/
structure TileClass.Within (c : TileClass K) (start : FTransform K) (beyond ahead reach : K) : Prop where
  lane : ∀ k l, (c.lane l * c.spawnPoint start k).translation.x - (c.spawnPoint start k).translation.x ≤ beyond
  box : ∀ k, ahead ≤ (c.groundTriggerBox * c.spawnPoint start k).translation.x - (c.spawnPoint start k).translation.x
  unturned : ∀ k v, FQuat.rotateVector (c.groundTriggerBox * c.spawnPoint start k).rotation v = v
  reach : ∀ k, (c.groundTriggerBox * c.spawnPoint start k).triggerReach ≤ reach

namespace World

/-- **Obstacles vanish behind the runner** where the trigger box is beyond the lane arrows by the half-widths of the two
boxes, and otherwise before him by no more than what is missing. An obstacle lives in a state that the game has reached,
and is not hit in what follows; if it is gone then, and the tiles that were recycled meanwhile are such whose boxes
overlapped the player's, it was no further ahead. -/
theorem obstacles_vanish_behind {w w₀ v u : World K} {a : BeginPlayAnswers K} {es fs : List (Event K)}
    {c : TileClass K} {beyond ahead reach : K} (init : w.Initial) (hc : w.gameMode.groundTileClass = some c)
    (begun : w.beginPlay a = .ok w₀) (within : c.Within w.gameMode.nextSpawnPoint beyond ahead reach)
    (run : (game K).Run w₀ es v) (after : (game K).Run v fs u) (overlap : ∀ t ∈ recycledTiles fs, v.Overlaps t)
    (o : ObstacleId) (alive : v.Alive o) (gone : ¬ u.Alive o) (unhit : ¬ Struck o fs) :
    (v.obstacleTransform o).translation.x - v.character.location.x ≤ beyond - ahead + reach := by
  obtain ⟨hriding, hkept⟩ := init.riding_run begun run
  obtain ⟨t, l, hplace, _, ht, _⟩ := hkept.exists_place alive
  have hmem : t ∈ recycledTiles fs := by
    by_contra hnot
    have hes : ∀ left right, Event.recycle t left right ∉ fs := fun left right hin =>
      hnot (mem_recycledTiles.mpr ⟨left, right, hin⟩)
    exact gone (alive_run after hkept (shows_run run (init.kept begun) (init.shows begun)) alive hplace hes unhit)
  obtain ⟨hclass, hrotation, hscale⟩ := ((init.oriented hc begun).1.run run).placed t ht
  have hwidth : v.triggerReach t ≤ reach := by
    rw [triggerReach, GroundTile.triggerTransform, hclass, FTransform.triggerReach, FTransform.mul_scale3D, hscale]
    exact within.reach t
  have hreach := (overlap t hmem).2.trans hwidth
  rw [triggerOffset, GroundTile.triggerTransform, hclass,
    FTransform.mul_translation_of_same _ hrotation hscale] at hreach
  rw [hriding.translation_eq alive hplace, GroundTile.laneTransform, hclass,
    FTransform.mul_translation_of_same _ hrotation hscale]
  have hlane := within.lane t l
  have hbox := within.box t
  simp only [FVector.add_x, FVector.sub_x] at hreach ⊢
  linarith

/-- Tiles with their lane arrows in the middle, and boxes of twice the width beyond their ends. -/
def fullTiles : TileClass ℚ :=
  { TileClass.ofOffsets ⟨400, 0, 0⟩ ⟨200, -255, 0⟩ ⟨200, 0, 0⟩ ⟨200, 255, 0⟩ 0 with
    groundTriggerBox := ⟨1, ⟨500, 0, 0⟩, ⟨2, 1, 1⟩⟩ }

theorem within_fullTiles : fullTiles.Within (.ofOffset 0) 200 500 64 := by
  have hoffset := fun k m => (fullTiles.offset_of_unturned (.ofOffset 0) rfl rfl k m).trans (m.offset_ofOffset 0)
  have hfirst := fullTiles.spawnPoint_of_unturned (.ofOffset 0) rfl rfl
  refine ⟨fun k l => ?_, fun k => (hoffset k _).ge, fun k v => ?_, fun k => ?_⟩
  · rw [hoffset]
    cases l <;> exact le_rfl
  · rw [FTransform.mul_rotation, (hfirst k).1]
    simp [fullTiles, FTransform.ofOffset]
  · rw [FTransform.triggerReach, FTransform.mul_scale3D, (hfirst k).2]
    norm_num [fullTiles, FTransform.ofOffset, FVector.hadamard]

/-- Three of them, brought so near that the box of the second is met. -/
def threeFullTiles : World ℚ := (started fullTiles 2 (some ()) .full).translateGround ⟨-860, 0, 0⟩

/-- The second tile is recycled, and its left obstacle is far behind. -/
theorem obstacles_vanish_behind_threeFullTiles : ∃ u,
    (game ℚ).Run threeFullTiles [.recycle 1 ⟨1, true⟩ ⟨1, true⟩] u ∧ threeFullTiles.Alive 0 ∧ ¬ u.Alive 0 ∧
      (threeFullTiles.obstacleTransform 0).translation.x - threeFullTiles.character.location.x ≤ -236 := by
  obtain ⟨u, hexec, hkill⟩ : ∃ u, (game ℚ).exec threeFullTiles [.recycle 1 ⟨1, true⟩ ⟨1, true⟩] = some u ∧
      (u.obstacles 0).pendingKill = true :=
    Option.map_eq_some_iff.mp (by decide +kernel)
  have hu := Machine.exec_eq_some.mp hexec
  have hgone : ¬ u.Alive 0 := fun h => Bool.false_ne_true (h.2.symm.trans hkill)
  have hrun : (game ℚ).Run (started fullTiles 2 (some ()) .full) [.translate ⟨-860, 0, 0⟩] threeFullTiles :=
    Machine.run_singleton.mpr ⟨trivial, rfl⟩
  have hunhit : ¬ Struck 0 [(.recycle 1 ⟨1, true⟩ ⟨1, true⟩ : Event ℚ)] := by
    rintro ⟨other, hmem, _⟩
    simp at hmem
  have hvanish := obstacles_vanish_behind (World.fresh_initial fullTiles 2) rfl
    (beginPlay_fresh fullTiles 2 (some ()) TileDraw.safe_full) within_fullTiles hrun hu ?_ 0 (by decide +kernel) hgone
    hunhit
  · refine ⟨u, hu, by decide +kernel, hgone, hvanish.trans ?_⟩
    norm_num
  · intro t ht
    cases List.mem_singleton.mp ht
    decide +kernel

end World

end EndlessRunner
