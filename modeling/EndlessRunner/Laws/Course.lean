import EndlessRunner.Laws.Board
import EndlessRunner.Laws.Turns
import EndlessRunner.Lib.Rows

/-!
# The course

The player sees a road of ever new rows, with obstacles on some of their lanes. The game has a few tiles that it
moves and clears and deals to again. A `Course` is what the player sees: each row that is laid stays, nothing is moved
or cleared, and no tile has a name. Every run carries it on its tiles (`World.course_carried`). In a play the tile in
place `i` of the pool is where row `recycledCount fs + i` of the road is and has what that row has, and the obstacles
that live are those of the rows that were not recycled (`World.plays_course`).
-/

set_option autoImplicit false

namespace EndlessRunner

open Lib (Machine Board)
open Lib.Belt (place)
open Lib.Board (Carries puts carries_range)
open Lib.Recency (notMem_drop_succ)

variable {K : Type} [Field K] [LinearOrder K]

/-- The rows that were laid so far, and what stands on them. -/
structure Course where
  board : Board ℕ Lane
  rows : ℕ

/-- The lanes on which two draws spawn an obstacle, in their order. -/
def wantedLanes (left right : ObstacleDraw K) : List Lane :=
  (if left.wanted then [.left] else []) ++ if right.wanted then [.right] else []

/-- What an event does to the course. The tile that is recycled does not matter. -/
def Course.after (v : Course) : Event K → Course
  | .recycle _ left right => ⟨v.board.play (puts v.rows (wantedLanes left right)), v.rows + 1⟩
  | .spawnGroundTile _ => ⟨v.board, v.rows + 1⟩
  | e => ⟨v.board.play e.boardMoves, v.rows⟩

/-- The course that `n` rounds of the start-up loop lay behind the first row. -/
def BeginPlayAnswers.course (a : BeginPlayAnswers K) (n : ℕ) : Course := ⟨Board.empty.play (a.boardMoves n), n + 1⟩

theorem deal_eq_puts (left right : ObstacleDraw K) (t : TileId) :
    deal left right t = puts t (wantedLanes left right) := by
  cases hl : left.wanted <;> cases hr : right.wanted <;> simp [deal, wantedLanes, puts, hl, hr]

namespace World

/-! ## Every run carries the course -/

/-- The tiles carry the course: `log` says which tile each row was laid on. -/
structure Follows (w : World K) (log : List TileId) (v : Course) : Prop where
  kept : Kept w
  pool : Pool w log.dedup
  rows : v.rows = log.length
  board : ∃ b, w.shelves.Shows b ∧ Carries b log v.board

/-- What neither lays a tile nor hits an obstacle leaves the course as it is. -/
theorem Follows.of_noMoves {w w' : World K} {e : Event K} {log : List TileId} {v : Course} (h : Follows w log v)
    (hs : (game K).Step w e w') (hmoves : (e.boardMoves : List (Board.Move TileId Lane)) = [])
    (hlays : w.tilesLaid e = []) (hcourse : v.after e = v) : Follows w' (log ++ w.tilesLaid e) (v.after e) := by
  obtain ⟨b, hb, hcarries⟩ := h.board
  have hpool := h.pool.log_step hs
  have hshows := shows_step hs h.kept hb
  rw [hmoves] at hshows
  rw [hlays, List.append_nil] at hpool ⊢
  rw [hcourse]
  exact ⟨h.kept.step hs, hpool, h.rows, b, hshows, hcarries⟩

/-- **Each event does to the tiles what it does to the course.** -/
theorem Follows.step {w w' : World K} {e : Event K} {log : List TileId} {v : Course} (h : Follows w log v)
    (hs : (game K).Step w e w') : Follows w' (log ++ w.tilesLaid e) (v.after e) := by
  obtain ⟨b, hb, hcarries⟩ := h.board
  have hkept := h.kept.step hs
  have hpool := h.pool.log_step hs
  have hshows := shows_step hs h.kept hb
  cases e with
  | recycle t left right =>
    refine ⟨hkept, hpool, ?_, _, hshows, ?_⟩
    · simp [Course.after, tilesLaid, h.rows]
    · rw [Event.boardMoves, deal_eq_puts, Course.after, h.rows]
      exact hcarries.layAgain t _
  | spawnGroundTile spawned =>
    have hnew : w.numTiles ∉ log := fun hmem => lt_irrefl _ ((h.pool.mem_iff _).mp (List.mem_dedup.mpr hmem))
    refine ⟨hkept, hpool, ?_, _, hshows, hcarries.layNew hnew⟩
    simp [Course.after, tilesLaid, h.rows]
  | hit o other =>
    have hnone : w.tilesLaid (.hit o other) = [] := rfl
    rw [hnone, List.append_nil] at hpool ⊢
    refine ⟨hkept, hpool, h.rows, _, hshows, ?_⟩
    simp only [Course.after, Event.boardMoves]
    split_ifs
    · exact hcarries.strike o
    · exact hcarries
  | _ => exact h.of_noMoves hs rfl rfl rfl

theorem Follows.run {w u : World K} {es : List (Event K)} (hr : (game K).Run w es u) :
    ∀ {log : List TileId} {v : Course}, Follows w log v →
      Follows u (log ++ (game K).collect tilesLaid w es) (es.foldl Course.after v) := by
  induction hr with
  | nil w =>
    intro log v h
    rwa [Machine.collect, List.append_nil]
  | cons hs _ ih =>
    intro log v h
    rw [Machine.collect_cons hs, ← List.append_assoc]
    exact ih (h.step hs)

section BeginPlay

variable [IsStrictOrderedRing K] {w w₀ u v : World K} {a : BeginPlayAnswers K}

/-- `BeginPlay` lays the course row by row. -/
theorem Initial.follows (init : w.Initial) (begun : w.beginPlay a = .ok w₀) :
    Follows w₀ (List.range w₀.numTiles) (a.course w.gameMode.numInitialGroundTiles.toNat) := by
  obtain ⟨hnum, hpool⟩ := init.pool_range begun
  have hkept := init.kept begun
  have hshows := init.shows begun
  refine ⟨hkept, ?_, ?_, _, hshows, carries_range ?_⟩
  · rwa [List.nodup_range.dedup]
  · rw [List.length_range, hnum]
    rfl
  · intro t l ht
    by_contra hsome
    obtain ⟨o, ho⟩ := Option.ne_none_iff_exists'.mp hsome
    obtain ⟨halive, hplace⟩ := (hshows.stands t l o).mp ho
    obtain ⟨t', l', hplace', _, hlt, _⟩ := hkept.exists_place halive
    cases hplace'.symm.trans hplace
    exact absurd hlt (Nat.not_lt.mpr ht)

omit [LinearOrder K] [IsStrictOrderedRing K] in
/-- What stands on a row that no later row was laid on. -/
theorem Follows.stands_iff {log : List TileId} {x : Course} (h : Follows u log x) {j : ℕ} {t : TileId}
    (laid : log[j]? = some t) (last : t ∉ log.drop (j + 1)) (l : Lane) (o : ObstacleId) :
    u.Alive o ∧ (u.obstacles o).attachParent = some (t, l) ↔ x.board.stands j l = some o := by
  obtain ⟨b, hb, hcarries⟩ := h.board
  rw [← hcarries.carries j t l laid last]
  exact (hb.stands t l o).symm

/-- **The tiles carry the course**, after every run: on each lane of a tile lives what the course has on the row that
was laid on the tile last. -/
theorem course_carried {es : List (Event K)} (init : w.Initial) (begun : w.beginPlay a = .ok w₀)
    (run : (game K).Run w₀ es u) {j : ℕ} {t : TileId}
    (laid : (List.range w₀.numTiles ++ (game K).collect tilesLaid w₀ es)[j]? = some t)
    (last : t ∉ (List.range w₀.numTiles ++ (game K).collect tilesLaid w₀ es).drop (j + 1)) (l : Lane) (o : ObstacleId) :
    u.Alive o ∧ (u.obstacles o).attachParent = some (t, l) ↔
      (es.foldl Course.after (a.course w.gameMode.numInitialGroundTiles.toNat)).board.stands j l = some o :=
  ((init.follows begun).run run).stands_iff laid last l o

end BeginPlay

/-- Tile 1 is laid again as row 2, whose right obstacle stands when the left one was hit. -/
theorem course_carried_hit :
    ∃ u, (game ℚ).Run fullRoad [.recycle 1 ⟨1, true⟩ ⟨1, true⟩, .hit 2 .runner, .collectGarbage] u ∧
      (u.Alive 3 ∧ (u.obstacles 3).attachParent = some (1, .right)) ∧
      ¬ (u.Alive 2 ∧ (u.obstacles 2).attachParent = some (1, .left)) := by
  obtain ⟨u, hu⟩ := Machine.exists_run_of_exec (M := game ℚ) fullRoad
    [.recycle 1 ⟨1, true⟩ ⟨1, true⟩, .hit 2 .runner, .collectGarbage] (by decide +kernel)
  have hrow := course_carried (World.fresh_initial _ 1) beginPlay_fullRoad hu (by decide +kernel : _ = some 1)
    (by decide +kernel : (1 : TileId) ∉ List.drop (2 + 1) _)
  refine ⟨u, hu, (hrow .right 3).mpr (by decide +kernel), (hrow .left 2).not.mpr (by decide +kernel)⟩

/-! ## A play -/

variable {w u : World K} {fs : List (K × List (Event K))}

/-- Where no tile is spawned, the tiles that are laid are those that are recycled. -/
theorem collect_tilesLaid {es : List (Event K)} (hr : (game K).Run w es u) :
    (∀ e ∈ es, ¬ e.Spawns) → (game K).collect tilesLaid w es = recycledTiles es := by
  induction hr with
  | nil w => exact fun _ => rfl
  | @cons w _ _ e es hs _ ih =>
    intro hes
    obtain ⟨he, hrest⟩ := List.forall_mem_cons.mp hes
    have hone : w.tilesLaid e = recycledTiles [e] := by
      cases e with
      | spawnGroundTile spawned => exact absurd trivial he
      | _ => rfl
    rw [Machine.collect_cons hs, recycledTiles_cons, ih hrest, hone]

omit [Field K] [LinearOrder K] in
theorem recycledInTurn_eq (fs : List (K × List (Event K))) :
    recycledInTurn fs = recycledTiles (fs.flatMap Prod.snd) := by
  induction fs with
  | nil => rfl
  | cons f fs ih =>
    rw [List.flatMap_cons, recycledTiles_append, ← ih]
    rfl

variable [IsStrictOrderedRing K] {c : TileClass K} {pitch ahead reach : K} {w₀ : World K} {a : BeginPlayAnswers K}

/-- **The game plays its course.** In every play whose frames are short enough, the tile in place `i` of the pool is
where row `recycledCount fs + i` of the road is, and on each lane lives what the course has on that row. The obstacles
that live are those on the rows that were not recycled: when a row is, what is left on it is destroyed. -/
theorem plays_course (outset : Outset w a c pitch ahead reach w₀) (play : Play w₀ fs u)
    (gentle : Gentle reach w₀ (fs.map Prod.fst)) :
    let course := (fs.flatMap Prod.snd).foldl Course.after (a.course w.gameMode.numInitialGroundTiles.toNat)
    (∀ i t, u.gameMode.groundTiles[i]? = some (some t) →
      u.triggerOffset t =
        place (w₀.triggerOffset 0) pitch (w₀.covered (fs.map Prod.fst)) (recycledCount fs + i) ∧
      ∀ l o, u.Alive o ∧ (u.obstacles o).attachParent = some (t, l) ↔
        course.board.stands (recycledCount fs + i) l = some o) ∧
    ∀ o, u.Alive o ↔ ∃ j l, recycledCount fs ≤ j ∧ course.board.stands j l = some o := by
  intro course
  obtain ⟨hrun, hnone⟩ := play.run
  have hfollows := (outset.init.follows outset.begun).run hrun
  rw [collect_tilesLaid hrun hnone, ← recycledInTurn_eq] at hfollows
  have hpool := outset.log_play play gentle
  -- a row that was not recycled is the last of its tile
  have hrow : ∀ j t, recycledCount fs ≤ j → (List.range w₀.numTiles ++ recycledInTurn fs)[j]? = some t → ∀ l o,
      u.Alive o ∧ (u.obstacles o).attachParent = some (t, l) ↔ course.board.stands j l = some o :=
    fun j t hj ht => hfollows.stands_iff ht (notMem_drop_succ hpool.nodup hj ht)
  refine ⟨?_, fun o => ⟨?_, ?_⟩⟩
  · intro i t hi
    rw [hpool.getElem?_eq] at hi
    exact ⟨outset.place_play play gentle hi, hrow _ t (Nat.le_add_right _ _) (List.getElem?_drop.symm.trans hi)⟩
  · intro halive
    obtain ⟨t, l, hplace, _, ht, _⟩ := hfollows.kept.exists_place halive
    obtain ⟨i, hi⟩ := List.getElem?_of_mem ((hpool.mem_iff t).mpr ht)
    rw [List.getElem?_drop] at hi
    exact ⟨_, l, Nat.le_add_right _ i, (hrow _ t (Nat.le_add_right _ _) hi l o).mp ⟨halive, hplace⟩⟩
  · rintro ⟨j, l, hj, ho⟩
    obtain ⟨b, _, hcarries⟩ := hfollows.board
    have hlaid : j < (List.range w₀.numTiles ++ recycledInTurn fs).length := by
      by_contra hahead
      rw [hcarries.ahead j l (Nat.not_lt.mp hahead)] at ho
      cases ho
    exact ((hrow j _ hj (List.getElem?_eq_getElem hlaid) l o).mpr ho).1

/-- A frame of a tenth of a second on three tiles of length 400, whose recycle spawns an obstacle on the left. -/
def oneFrame : List (Event ℚ) := [.tick (1 / 10), .groundTick, .physics (1 / 10)] ++ [.recycle 0 ⟨1, true⟩ ⟨0, true⟩]

theorem playFrame_oneFrame : ∃ u, PlayFrame (1 / 10) oneFrame threeBoxes u ∧
    u.gameMode.groundTiles = [some 1, some 2, some 0] := by
  obtain ⟨v, hv, hfacts⟩ : ∃ v, (game ℚ).exec threeBoxes [.tick (1 / 10), .groundTick, .physics (1 / 10)] = some v ∧
      (v.gameMode.groundTiles, decide (v.Overlaps 0), decide (v.Overlaps 1), decide (v.Overlaps 2)) =
        ([some 0, some 1, some 2], true, false, false) :=
    Option.map_eq_some_iff.mp (by decide +kernel)
  obtain ⟨u, hu, hground⟩ : ∃ u, (game ℚ).exec threeBoxes oneFrame = some u ∧
      u.gameMode.groundTiles = [some 1, some 2, some 0] :=
    Option.map_eq_some_iff.mp (by decide +kernel)
  simp only [Prod.mk.injEq, decide_eq_true_eq, decide_eq_false_iff_not] at hfacts
  obtain ⟨htiles, h0, h1, h2⟩ := hfacts
  have hmotion := Machine.exec_eq_some.mp hv
  have hrest := hmotion.rest (Machine.exec_eq_some.mp hu)
  refine ⟨u, ⟨[], [], [], _, v, rfl, hmotion, by simp, hrest, ?_, by simp [recycledTiles], fun t => ?_⟩, hground⟩
  · intro e he
    cases List.mem_singleton.mp he
    exact .inr trivial
  · rw [htiles]
    constructor
    · intro ht
      cases List.mem_singleton.mp ht
      exact ⟨List.mem_cons_self, h0⟩
    · rintro ⟨ht, hoverlaps⟩
      simp only [List.mem_cons, Option.some.injEq, List.not_mem_nil, or_false] at ht
      rcases ht with rfl | rfl | rfl
      · exact List.mem_singleton_self _
      · exact absurd hoverlaps h1
      · exact absurd hoverlaps h2

/-- Tile 0 is the last of the pool. It is where row 3 is, and has the obstacle that was spawned on that row. -/
theorem plays_course_oneFrame : ∃ u, Play threeBoxes [(1 / 10, oneFrame)] u ∧ u.triggerOffset 0 = 123999 / 100 ∧
    u.Alive 0 ∧ (u.obstacles 0).attachParent = some (0, .left) := by
  obtain ⟨u, hframe, hground⟩ := playFrame_oneFrame
  have hplay : Play threeBoxes [(1 / 10, oneFrame)] u := .cons hframe (.nil u)
  have hgentle : Gentle 40 threeBoxes [1 / 10] := by
    rw [Gentle, stepsAhead_threeBoxes]
    norm_num [steps]
  have hcount : recycledCount [((1 / 10 : ℚ), oneFrame)] = 1 := by decide +kernel
  obtain ⟨hplace, hrow⟩ := (plays_course outset_threeBoxes hplay hgentle).1 2 0 (by rw [hground]; rfl)
  refine ⟨u, hplay, ?_, (hrow .left 0).mpr (by decide +kernel)⟩
  rw [hplace, hcount, triggerOffset_threeBoxes, covered, List.map_singleton, stepsAhead_threeBoxes]
  norm_num [place, steps]

end World

end EndlessRunner
