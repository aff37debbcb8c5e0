import EndlessRunner.Laws.Endless
import EndlessRunner.Lib.Recency

/-!
# The tiles take turns

`RecycleTile` takes a tile out of the pool and adds it at the end. So in every run the pool has its tiles in the order
in which they were last laid (`World.pool_by_last_laid`). In a play the front is always taken first, and the pool is the
end of the log: which actor serves which tile of the road is read off the log (`World.tiles_in_turn`). And a tile comes
round exactly when the road has brought its trigger box within reach (`World.comes_round_iff`).
-/

set_option autoImplicit false

namespace EndlessRunner

open Lib (Machine)
open Lib.Belt (place place_closer)
open Lib.Recency (touch touch_dedup touch_of_notMem drop_used mem_used_iff)

variable {K : Type} [Field K] [LinearOrder K]

namespace World

/-! ## The log -/

/-- The tile that an event lays at the end of the pool. -/
def tilesLaid (w : World K) : Event K → List TileId
  | .recycle t _ _ => [t]
  | .spawnGroundTile _ => [w.numTiles]
  | _ => []

/-- Every event keeps the order of the log. -/
theorem Pool.log_step {w w' : World K} {e : Event K} {log : List TileId} (hs : (game K).Step w e w')
    (h : Pool w log.dedup) : Pool w' (log ++ w.tilesLaid e).dedup := by
  rcases roadStep_cases hs with ⟨hmoves, v, hsame, honly⟩ | ⟨d, he, rfl⟩ | ⟨spawned, c, rfl, _, rfl⟩ |
    ⟨t, left, right, last, rfl, hmem, hlast, honly⟩
  · have hnone : w.tilesLaid e = [] := by
      cases e with
      | recycle | spawnGroundTile => exact absurd trivial hmoves
      | _ => rfl
    rw [hnone, List.append_nil]
    exact ((h.of_sameRoad hsame).1.of_onlyObstacles honly).1
  · have hnone : w.tilesLaid e = [] := by
      rcases he with rfl | ⟨dt, rfl, _⟩ <;> rfl
    rw [hnone, List.append_nil]
    exact (h.translateGround d).1
  · have hnew : w.numTiles ∉ log.dedup := fun hmem => lt_irrefl _ ((h.mem_iff _).mp hmem)
    rw [tilesLaid, ← touch_dedup, touch_of_notMem hnew]
    exact (h.withTile c).1
  · rw [tilesLaid, ← touch_dedup]
    exact ((h.toEnd (h.some_mem.mp hmem) (h.getLast?.mp hlast)).1.of_onlyObstacles honly).1

variable [IsStrictOrderedRing K]

/-- **The pool has its tiles in the order in which they were last laid**, after every run: the log of all tiles that
`BeginPlay` has laid, and then `SpawnGroundTile` and `RecycleTile`, without those that come again later. -/
theorem pool_by_last_laid {w w₀ u : World K} {a : BeginPlayAnswers K} {es : List (Event K)} (init : w.Initial)
    (begun : w.beginPlay a = .ok w₀) (run : (game K).Run w₀ es u) :
    u.gameMode.groundTiles =
      (List.range (w.gameMode.numInitialGroundTiles.toNat + 1) ++ (game K).collect tilesLaid w₀ es).dedup.map some := by
  obtain ⟨hnum, hpool⟩ := init.pool_range begun
  rw [hnum] at hpool
  rw [← List.nodup_range.dedup] at hpool
  exact (run.logged (R := fun v log => Pool v log.dedup) (fun _ _ _ _ hs h => Pool.log_step hs h) hpool).groundTiles

/-- Tile 1 is recycled before its turn, a tile is added, and tile 0 is recycled. -/
theorem pool_by_last_laid_threeTiles :
    ∃ u, (game ℚ).Run threeTiles [.recycle 1 ⟨0, true⟩ ⟨0, true⟩, .spawnGroundTile true,
        .recycle 0 ⟨0, true⟩ ⟨0, true⟩] u ∧ u.gameMode.groundTiles = [some 2, some 1, some 3, some 0] := by
  obtain ⟨u, hu⟩ := Machine.exists_run_of_exec (M := game ℚ) threeTiles
    [.recycle 1 ⟨0, true⟩ ⟨0, true⟩, .spawnGroundTile true, .recycle 0 ⟨0, true⟩ ⟨0, true⟩] (by decide +kernel)
  refine ⟨u, hu, (pool_by_last_laid (World.fresh_initial _ 2) beginPlay_threeTiles hu).trans ?_⟩
  decide +kernel

/-! ## Turns -/

variable {c : TileClass K} {start : FTransform K} {reach x pitch ahead d : K} {m : ℕ} {w u : World K}

/-- Frame after frame, the pool is what the log has from the count of the recycled tiles on. -/
theorem Rolling.log_play {fs : List (K × List (Event K))} (regular : c.Regular start pitch ahead reach)
    (hpitch : 0 < pitch) (hplay : Play w fs u) :
    ∀ {d : K} {m : ℕ} {log : List TileId}, Rolling c start reach x pitch d m w →
      reach + reach + pitch ≤ w.numTiles * pitch → Gentle reach w (fs.map Prod.fst) → m ≤ log.length →
      Pool w (log.drop m) → Pool u ((log ++ recycledInTurn fs).drop (m + recycledCount fs)) := by
  induction hplay with
  | nil w =>
    intro d m log _ _ _ _ hpool
    simpa [recycledInTurn, recycledCount] using hpool
  | @cons w u w' dt es fs hframe _ ih =>
    intro d m log h hlong hsteps hm hpool
    have hsome : ∃ ids, Pool w ids := h.window.imp fun _ => And.left
    rw [List.map_cons, Gentle, hframe.stepsAhead hsome] at hsteps
    obtain ⟨hstep, hrest⟩ := List.forall_mem_cons.mp hsteps
    obtain ⟨_, hnum, _⟩ := hframe.facts hsome
    obtain ⟨hthen, p, q, hfirst, hperm, hlast⟩ := h.frame regular hpitch hlong hstep hframe
    rw [← drop_used (hpool.unique hfirst) hperm hm] at hlast
    have hm' : m + (recycledTiles es).length ≤ (log ++ recycledTiles es).length := by
      rw [List.length_append]
      exact Nat.add_le_add_right hm _
    have hall := ih hthen (hnum ▸ hlong) hrest hm' hlast
    rwa [List.append_assoc, Nat.add_assoc, ← recycledCount_cons dt] at hall

section Outset

variable {w₀ v : World K} {a : BeginPlayAnswers K} {fs gs : List (K × List (Event K))}

/-- From `BeginPlay` on, the log begins with the tiles that it has laid. -/
theorem Outset.log_play (h : Outset w a c pitch ahead reach w₀) (hplay : Play w₀ fs u)
    (hgentle : Gentle reach w₀ (fs.map Prod.fst)) :
    Pool u ((List.range w₀.numTiles ++ recycledInTurn fs).drop (recycledCount fs)) := by
  obtain ⟨_, hpool⟩ := h.init.pool_range h.begun
  have hlog := h.rolling.log_play h.regular h.pitch_pos hplay h.room hgentle (Nat.zero_le _) hpool
  rwa [Nat.zero_add] at hlog

/-- Its entries are where the next tiles of the road are. -/
theorem Outset.place_play (h : Outset w a c pitch ahead reach w₀) (hplay : Play w₀ fs u)
    (hgentle : Gentle reach w₀ (fs.map Prod.fst)) {i : ℕ} {t : TileId}
    (hi : ((List.range w₀.numTiles ++ recycledInTurn fs).drop (recycledCount fs))[i]? = some t) :
    u.triggerOffset t = place (w₀.triggerOffset 0) pitch (w₀.covered (fs.map Prod.fst)) (recycledCount fs + i) := by
  obtain ⟨⟨_, ⟨ids, hids, _, hshows⟩, _⟩, _⟩ := h.rolls hplay hgentle
  cases hids.unique (h.log_play hplay hgentle)
  exact hshows i t hi

/-- **The tiles take turns**: in every play whose frames are short enough, the pool is the end of the log of the tiles
that were laid, without any that is there twice. So tile `j` of the road is always the actor with entry `j` of the
log. -/
theorem tiles_in_turn (outset : Outset w a c pitch ahead reach w₀) (play : Play w₀ fs u)
    (gentle : Gentle reach w₀ (fs.map Prod.fst)) :
    u.gameMode.groundTiles =
        ((List.range w₀.numTiles ++ recycledInTurn fs).drop (recycledCount fs)).map some ∧
      ((List.range w₀.numTiles ++ recycledInTurn fs).drop (recycledCount fs)).Nodup ∧
      ∀ j t, recycledCount fs ≤ j → (List.range w₀.numTiles ++ recycledInTurn fs)[j]? = some t →
        u.triggerOffset t = place (w₀.triggerOffset 0) pitch (w₀.covered (fs.map Prod.fst)) j := by
  have hpool := outset.log_play play gentle
  refine ⟨hpool.groundTiles, hpool.nodup, ?_⟩
  intro j t hj ht
  obtain ⟨i, rfl⟩ := Nat.exists_eq_add_of_le hj
  exact outset.place_play play gentle (List.getElem?_drop.trans ht)

end Outset

/-- After two frames tile 1 is the first of the pool. -/
theorem tiles_in_turn_twoFrames : ∃ fs u, fs.map Prod.fst = [1 / 10, 1 / 10] ∧ Play threeBoxes fs u ∧
    u.gameMode.groundTiles.head? = some (some 1) := by
  obtain ⟨fs, u, hfst, hplay, hgentle, hcovered⟩ := exists_twoFrames
  have htaken := (outset_threeBoxes.rolls hplay hgentle).1.taken
  rw [triggerOffset_threeBoxes, hcovered] at htaken
  have h0 : 0 < recycledCount fs := (htaken 0).mpr (by norm_num [place])
  have h1 : ¬ 1 < recycledCount fs := (htaken 1).not.mpr (by norm_num [place])
  have hcount : recycledCount fs = 1 := by omega
  have hnum : threeBoxes.numTiles = 3 := by decide +kernel
  refine ⟨fs, u, hfst, hplay, ?_⟩
  rw [(tiles_in_turn outset_threeBoxes hplay hgentle).1, hcount, hnum]
  rfl

section Outset

variable {w₀ v : World K} {a : BeginPlayAnswers K} {fs gs : List (K × List (Event K))}

/-- **A tile comes round exactly when its turn has come**: in whatever the game goes on to play, it is recycled if and
only if the road has brought its trigger box within reach of the player's. -/
theorem comes_round_iff (outset : Outset w a c pitch ahead reach w₀) (before : Play w₀ fs v)
    (gentle : Gentle reach w₀ (fs.map Prod.fst)) (play : Play v gs u) (gentle' : Gentle reach v (gs.map Prod.fst))
    (t : TileId) (spawned : t < v.numTiles) :
    t ∈ recycledInTurn gs ↔ v.triggerOffset t - v.covered (gs.map Prod.fst) ≤ reach := by
  obtain ⟨hrolls, hnum⟩ := outset.rolls before gentle
  have hpool := outset.log_play before gentle
  have hlong := outset.room
  rw [← hnum] at hlong
  obtain ⟨hrolls', hnum'⟩ := hrolls.play outset.regular outset.pitch_pos play hlong gentle'
  have hcount : recycledCount fs ≤ (List.range w₀.numTiles ++ recycledInTurn fs).length := by
    rw [List.length_append]
    exact Nat.le_add_left _ _
  have hpool' := hrolls.log_play outset.regular outset.pitch_pos play hlong gentle' hcount hpool
  obtain ⟨i, hi⟩ := List.getElem?_of_mem ((hpool.mem_iff t).mpr spawned)
  have hused := mem_used_iff hpool.nodup hpool'.nodup hi ((hpool'.mem_iff t).mpr (hnum'.symm ▸ spawned))
  have hreach := hrolls'.taken (recycledCount fs + i)
  rw [place_closer, ← outset.place_play before gentle hi] at hreach
  exact hused.trans hreach

end Outset

/-- In the two frames tile 0 comes round, and tile 1 does not. -/
theorem comes_round_iff_twoFrames : ∃ gs u, gs.map Prod.fst = [1 / 10, 1 / 10] ∧ Play threeBoxes gs u ∧
    0 ∈ recycledInTurn gs ∧ 1 ∉ recycledInTurn gs := by
  obtain ⟨gs, u, hfst, hplay, hgentle, hcovered⟩ := exists_twoFrames
  have hnone : Gentle 40 threeBoxes (([] : List (ℚ × List (Event ℚ))).map Prod.fst) :=
    fun s hs => absurd hs List.not_mem_nil
  have hround := comes_round_iff outset_threeBoxes (.nil _) hnone hplay hgentle
  have h1 : threeBoxes.triggerOffset 1 = 500 := by decide +kernel
  refine ⟨gs, u, hfst, hplay, (hround 0 (by decide +kernel)).mpr ?_, (hround 1 (by decide +kernel)).not.mpr ?_⟩
  · rw [triggerOffset_threeBoxes, hcovered]
    norm_num
  · rw [h1, hcovered]
    norm_num

end World

end EndlessRunner
