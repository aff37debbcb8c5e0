import EndlessRunner.Laws.Play
import EndlessRunner.Lib.Gate
import Mathlib.Data.Rat.Floor

/-!
# Tiles that pass the player

A tile is recycled when its trigger box is found to overlap the player's at the end of a frame's motion. Between two
recycles a tile moves back by `speed * dt` in each frame (`World.Play.facts`), so it passes the player as a body passes
a gate in steps, and the general fact about gates says which frame lengths let none slip by (`World.none_slips_iff`).
The speed grows with the number of frames, in single precision, so a frame length that is short enough at first is too
long in the end.
-/

set_option autoImplicit false

namespace EndlessRunner

open Lib (Machine)
open Lib.Gate
open Lib.Rounding

namespace World

variable {K : Type} [Field K] [LinearOrder K] {w w' : World K}

/-- The tile's box is wholly in front of the player's. -/
def InFront (w : World K) (t : TileId) : Prop := w.triggerReach t < w.triggerOffset t

/-- The tile's box is wholly behind the player's. -/
def Behind (w : World K) (t : TileId) : Prop := w.triggerOffset t < -w.triggerReach t

/-- **A tile that is not recycled passes the player as a body passes a gate**, and is never caught. -/
theorem Play.facts {fs : List (K × List (Event K))} (h : Play w fs w') : (∃ ids, Pool w ids) →
    (∃ ids, Pool w' ids) ∧ w'.numTiles = w.numTiles ∧
      w'.gameMode.speed = grown w.gameMode.float w.gameMode.speed w.gameMode.speedIncrease fs.length ∧
      ∀ t < w.numTiles, t ∉ recycledInTurn fs →
        w'.triggerOffset t = w.triggerOffset t - (w.stepsAhead (fs.map Prod.fst)).sum ∧
          ¬ Caught (w.triggerReach t) (w.triggerOffset t) (w.stepsAhead (fs.map Prod.fst)) := by
  induction h with
  | nil w =>
    intro hpool
    refine ⟨hpool, rfl, rfl, ?_⟩
    intro t _ _
    exact ⟨(sub_zero _).symm, fun hcaught => hcaught⟩
  | @cons w u w' dt es fs hframe _ ih =>
    intro hpool
    obtain ⟨hrun, hquiet⟩ := hframe.run
    obtain ⟨hpool₁, hnum₁, hspeed₁, hstep₁⟩ := hframe.facts hpool
    obtain ⟨hpool₂, hnum₂, hspeed₂, hstep₂⟩ := ih hpool₁
    refine ⟨hpool₂, hnum₂.trans hnum₁, hspeed₂.trans (grown_next (config_run hrun) hspeed₁ fs.length), ?_⟩
    intro t ht hnot
    rw [recycledInTurn, List.flatMap_cons, List.mem_append, not_or] at hnot
    obtain ⟨hoffset₁, houtside⟩ := hstep₁ t ht hnot.1
    obtain ⟨hoffset₂, hnever⟩ := hstep₂ t (hnum₁ ▸ ht) hnot.2
    rw [hoffset₁] at hoffset₂
    rw [Overlaps] at houtside
    rw [triggerReach_run hrun hquiet, hoffset₁] at hnever houtside
    rw [List.map_cons, hframe.stepsAhead hpool, List.sum_cons]
    refine ⟨hoffset₂.trans (sub_sub _ _ _), ?_⟩
    intro hcaught
    rcases hcaught with hnow | hlater
    · exact houtside hnow
    · exact hnever hlater

/-! ## Plays that recycle nothing -/

/-- A frame in which nothing happens but what has to. -/
def plainFrame (dt : K) : K × List (Event K) := (dt, [.tick dt, .groundTick, .physics dt])

omit [Field K] [LinearOrder K] in
theorem map_fst_plainFrame (dts : List K) : (dts.map plainFrame).map Prod.fst = dts := by
  rw [List.map_map]
  exact List.map_id _

omit [Field K] [LinearOrder K] in
theorem recycledInTurn_plainFrame (dts : List K) : recycledInTurn (dts.map plainFrame) = [] := by
  rw [recycledInTurn, List.flatMap_eq_nil_iff]
  intro f hf
  obtain ⟨dt, _, rfl⟩ := List.mem_map.mp hf
  rfl

/-- A tile that is alone on the road, and that no frame catches, is driven past. -/
theorem exists_plainPlay (dts : List K) : ∀ {w : World K}, OnLanes w → Pool w [0] →
    ¬ Caught (w.triggerReach 0) (w.triggerOffset 0) (w.stepsAhead dts) → ∃ v, Play w (dts.map plainFrame) v := by
  induction dts with
  | nil => exact fun {w} _ _ _ => ⟨w, .nil w⟩
  | cons dt dts ih =>
    intro w hlanes hpool hnever
    have hnothing : ∀ e ∈ ([] ++ [] ++ [] : List (Event K)), e.LeavesRoad := by simp
    obtain ⟨u, hmotion, hlanes'⟩ := hlanes.exists_motion dt
    obtain ⟨hpool', _, hspeed, hback⟩ := motion_facts hpool hmotion hnothing
    have hoffset := hback 0 (List.mem_singleton_self 0)
    have hreach := triggerReach_run hmotion (fun e he => (motion_moves_only dt hnothing e he).1) 0
    rw [stepsAhead_cons (config_run hmotion) hspeed, Caught, not_or, ← hoffset, ← hreach] at hnever
    obtain ⟨v, hv⟩ := ih hlanes' hpool' hnever.2
    refine ⟨v, .cons ⟨[], [], [], [], u, rfl, hmotion, hnothing, .nil u, ?_, List.nodup_nil, ?_⟩ hv⟩
    · exact fun e he => absurd he List.not_mem_nil
    · intro t
      refine iff_of_false List.not_mem_nil ?_
      rintro ⟨ht, hover⟩
      cases List.mem_singleton.mp (hpool'.some_mem.mp ht)
      exact hnever.1 hover

/-! ## From `BeginPlay` -/

variable [IsStrictOrderedRing K] [FloorRing K]

/-- The class defaults of the speed, in single precision. -/
structure DefaultSpeed (w : World K) : Prop where
  float : w.gameMode.float = binary32
  speed : w.gameMode.speed = 600
  speedIncrease : w.gameMode.speedIncrease = binary32 (1 / 10)

/-- No tile slips by in a play, at the default speeds, whose frames have these lengths, or in its beginning: a tile
that is wholly in front of the player at the end of a frame, and wholly behind at the end of a later one, was recycled
in between. The tiles' boxes are of the extent that the code gives them. -/
def NoneSlips (dts : List K) : Prop :=
  ∀ (w w₀ u v : World K) (a : BeginPlayAnswers K) (fs₁ fs₂ : List (K × List (Event K))) (t : TileId),
    w.Initial → DefaultSpeed w → w.beginPlay a = .ok w₀ → (∀ s < w₀.numTiles, w₀.triggerReach s = 48) →
    (fs₁ ++ fs₂).map Prod.fst <+: dts → Play w₀ fs₁ u → Play u fs₂ v →
    some t ∈ u.gameMode.groundTiles → InFront u t → Behind v t → t ∈ recycledInTurn fs₂

theorem binary32_tenth_pos : (0 : K) < binary32 (1 / 10) := by
  rw [binary32_tenth]
  norm_num

/-- **No tile slips by while no frame takes the road further than the two boxes are wide.** -/
theorem noneSlips_of_le {dts : List K} (hle : ∀ d ∈ steps binary32 (600 : K) (binary32 (1 / 10)) dts, d ≤ 96) :
    NoneSlips dts := by
  intro w w₀ u v a fs₁ fs₂ t init hdefaults begun hreach₀ hbegins hplay₁ hplay₂ ht hfront hbehind
  obtain ⟨c, hc⟩ := beginPlay_class begun
  obtain ⟨_, _, hmode⟩ := (beginPlay_onlyTiles begun hc).gameMode
  have hdefaults₀ : DefaultSpeed w₀ := by
    constructor
    all_goals rw [hmode]
    · exact hdefaults.float
    · exact hdefaults.speed
    · exact hdefaults.speedIncrease
  obtain ⟨hlaid, _⟩ := init.laid begun
  obtain ⟨hpool₁, hnum₁, hspeed₁, _⟩ := hplay₁.facts hlaid.pool
  obtain ⟨_, _, _, hpass⟩ := hplay₂.facts hpool₁
  have hlt := (Pool.mem_groundTiles hpool₁).mp ht
  have hreach₁ : u.triggerReach t = 48 :=
    (triggerReach_run hplay₁.run.1 hplay₁.run.2 t).trans (hreach₀ t (hnum₁ ▸ hlt))
  have hreach₂ : v.triggerReach t = 48 := (triggerReach_run hplay₂.run.1 hplay₂.run.2 t).trans hreach₁
  rw [InFront, hreach₁] at hfront
  rw [Behind, hreach₂] at hbehind
  by_contra hnot
  obtain ⟨hoffset, hnever⟩ := hpass t hlt hnot
  apply hnever
  rw [hreach₁]
  apply caught_of_le _ _ _ hfront
  · rw [← hoffset]
    exact hbehind
  · norm_num
  · intro d hd
    refine (hle d ?_).trans (by norm_num)
    obtain ⟨hfloat, hincrease⟩ := increase_of_config (config_run hplay₁.run.1)
    obtain ⟨rest, rfl⟩ := hbegins
    rw [List.map_append, List.append_assoc, steps_append, steps_append, List.length_map]
    rw [stepsAhead, hfloat, hincrease, hspeed₁, hdefaults₀.float, hdefaults₀.speed, hdefaults₀.speedIncrease] at hd
    exact List.mem_append_right _ (List.mem_append_left _ hd)

/-- A road with one tile, whose trigger box is `x` in front of the player. -/
def loneTile (x : K) : World K := started (.ofOffsets 0 0 0 0 ⟨x, 0, 0⟩) 0 (some ()) .bare binary32

theorem beginPlay_loneTile (x : K) :
    (World.fresh (.ofOffsets 0 0 0 0 ⟨x, 0, 0⟩) 0 binary32).beginPlay ⟨some (), true, fun _ => .bare⟩ =
      .ok (loneTile x) :=
  beginPlay_fresh _ 0 _ TileDraw.safe_bare binary32

theorem pool_loneTile (x : K) : Pool (loneTile x) [0] where
  groundTiles := rfl
  nodup := List.nodup_singleton 0
  mem_iff t := List.mem_singleton.trans Nat.lt_one_iff.symm
  attached t ht := by
    cases List.mem_singleton.mp ht
    rfl

theorem triggerOffset_loneTile (x : K) : (loneTile x).triggerOffset 0 = x := by
  show (FTransform.ofOffset (⟨x, 0, 0⟩ : FVector K) * FTransform.ofOffset 0).translation.x - 0 = x
  rw [FTransform.mul_ofOffset_translation, sub_zero]
  exact add_zero x

theorem triggerReach_loneTile (x : K) : (loneTile x).triggerReach 0 = 48 := by
  show 16 * |(1 : K) * 1| + 32 = 48
  norm_num

/-- **A frame that takes the road further lets a tile slip by**, on a road with one tile whose trigger box is
at a suitable place. -/
theorem not_noneSlips (dts : List K) (dt : K) (hpos : ∀ e ∈ dts, 0 < e)
    (hlong : 96 < grown binary32 600 (binary32 (1 / 10)) (dts.length + 1) * dt) : ¬ NoneSlips (dts ++ [dt]) := by
  intro h
  have hlast : steps binary32 (600 : K) (binary32 (1 / 10)) (dts ++ [dt]) =
      steps binary32 600 (binary32 (1 / 10)) dts ++
        [grown binary32 600 (binary32 (1 / 10)) (dts.length + 1) * dt] := by
    rw [steps_append, steps, steps, grown_succ]
  have hsixHundred : (0 : K) < 600 := by norm_num
  obtain ⟨x, hfront, hbehind, hnever⟩ := exists_not_caught (r := 48)
    (steps_pos isRounding_binary32 binary32_sixHundred hsixHundred binary32_tenth_pos.le hpos)
    (by linarith : (48 + 48 : K) < grown binary32 600 (binary32 (1 / 10)) (dts.length + 1) * dt)
  rw [← hlast] at hbehind hnever
  have hx := triggerOffset_loneTile x
  have hreach := triggerReach_loneTile x
  have hpool := pool_loneTile x
  have init := World.fresh_initial (TileClass.ofOffsets 0 0 0 0 (⟨x, 0, 0⟩ : FVector K)) 0 binary32
  obtain ⟨hlanes, _⟩ := onLanes_beginPlay init (findsLane_fresh _ 0 _) (beginPlay_loneTile x) rfl
  obtain ⟨v, hplay⟩ := exists_plainPlay (dts ++ [dt]) hlanes hpool (by rwa [hreach, hx])
  have hnothing : 0 ∉ recycledInTurn ((dts ++ [dt]).map plainFrame) := by
    rw [recycledInTurn_plainFrame]
    exact List.not_mem_nil
  obtain ⟨_, _, _, hpass⟩ := hplay.facts ⟨_, hpool⟩
  obtain ⟨hoffset, _⟩ := hpass 0 Nat.one_pos hnothing
  rw [hx, map_fst_plainFrame] at hoffset
  have hreach' := (triggerReach_run hplay.run.1 hplay.run.2 0).trans hreach
  have hreaches : ∀ s < (loneTile x).numTiles, (loneTile x).triggerReach s = 48 := by
    intro s hs
    cases Nat.lt_one_iff.mp hs
    exact hreach
  have hin : InFront (loneTile x) 0 := by rwa [InFront, hreach, hx]
  have hout : Behind v 0 := by
    rw [Behind, hreach', hoffset]
    exact hbehind
  exact hnothing (h _ _ _ v _ [] _ 0 init ⟨rfl, rfl, rfl⟩ (beginPlay_loneTile x) hreaches
    (by rw [List.nil_append, map_fst_plainFrame]) (.nil _) hplay (hpool.some_mem.mpr (List.mem_singleton_self 0)) hin
    hout)

/-- **No tile slips by exactly when no frame takes the road further than the two boxes are wide together**, which in
frame `k` is a matter of its length times the speed that `k + 1` additions in single precision have reached. -/
theorem none_slips_iff {dts : List K} (positive : ∀ dt ∈ dts, 0 < dt) :
    NoneSlips dts ↔
      ∀ (k : ℕ) (dt : K), dts[k]? = some dt → grown binary32 600 (binary32 (1 / 10)) (k + 1) * dt ≤ 96 := by
  constructor
  · intro h k dt hk
    by_contra hlong
    obtain ⟨hlt, hget⟩ := List.getElem?_eq_some_iff.mp hk
    have hlength : (dts.take k).length = k := List.length_take_of_le hlt.le
    have hsplit : dts.take k ++ [dt] <+: dts := by
      rw [← hget, List.take_append_getElem]
      exact List.take_prefix _ _
    apply not_noneSlips (dts.take k) dt
    · exact fun e he => positive e (List.mem_of_mem_take he)
    · rw [hlength]
      exact lt_of_not_ge hlong
    · intro w w₀ u v a fs₁ fs₂ t init hdefaults begun hreach hbegins
      exact h w w₀ u v a fs₁ fs₂ t init hdefaults begun hreach (hbegins.trans hsplit)
  · intro h
    apply noneSlips_of_le
    intro d hd
    obtain ⟨k, dt, hk, rfl⟩ := mem_steps.mp hd
    exact h k dt hk

/-- At sixty frames a second this lasts for 51567 frames. -/
theorem none_slips_iff_sixtyPerSecond : NoneSlips (List.replicate 51567 (1 / 60 : ℚ)) := by
  refine (none_slips_iff ?_).mpr ?_
  · intro dt hdt
    rw [(List.mem_replicate.mp hdt).2]
    norm_num
  · intro k dt hk
    obtain ⟨hlt, hget⟩ := List.getElem?_eq_some_iff.mp hk
    rw [List.length_replicate] at hlt
    rw [List.getElem_replicate] at hget
    have hmono := (isRounding_binary32 (K := ℚ)).grown_mono binary32_sixHundred binary32_tenth_pos.le
      (Nat.succ_le_of_lt hlt)
    have hlast := grown_defaults (K := ℚ) (n := 16623) (by norm_num)
    have hle : grown binary32 600 (binary32 (1 / 10)) (k + 1) ≤ (5760 : ℚ) := by
      refine (hmono.trans hlast.le).trans ?_
      norm_num
    rw [← hget]
    linarith

/-- The longest frame within a sixtieth of a second that a `float` can give. -/
def sixtieth : ℚ := 8947848 / 536870912

/-- In the next frame a tile slips by. -/
theorem not_noneSlips_sixtyPerSecond :
    ¬ ∀ dts : List ℚ, (∀ dt ∈ dts, 0 < dt ∧ dt ≤ 1 / 60) → NoneSlips dts := by
  intro h
  have hsixtieth : 0 < sixtieth ∧ sixtieth ≤ 1 / 60 := by norm_num [sixtieth]
  have hframes : ∀ dt ∈ List.replicate 51567 sixtieth ++ [sixtieth], 0 < dt ∧ dt ≤ 1 / 60 := by
    intro dt hdt
    rw [← List.replicate_succ'] at hdt
    rw [(List.mem_replicate.mp hdt).2]
    exact hsixtieth
  have hlast := grown_defaults (K := ℚ) (n := 16624) (by norm_num)
  apply not_noneSlips (List.replicate 51567 sixtieth) sixtieth
  · exact fun dt hdt => (hframes dt (List.mem_append_left _ hdt)).1
  · rw [List.length_replicate]
    refine lt_of_lt_of_eq ?_ (congrArg (· * sixtieth) hlast.symm)
    norm_num [sixtieth]
  · exact h _ hframes

end World

end EndlessRunner
