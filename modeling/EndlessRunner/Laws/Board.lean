import EndlessRunner.Laws.Obstacles
import EndlessRunner.Lib.Board

/-!
# What stands on the road

Behind the stale lists, the destroyed obstacles and the collections is a plain board: on each lane of each tile at most
one obstacle. A round of the start-up loop deals it to the two lanes of its tile, `RecycleTile` empties a tile and deals
again, and a hit takes an obstacle away. The game refines the board (`World.board_refined`), so what stands on a tile is
what was dealt to it last and was not hit since (`World.obstacles_since_recycle`).
-/

set_option autoImplicit false

namespace EndlessRunner

open Lib (Machine Shelves Board)

variable {K : Type} [Field K] [LinearOrder K]

/-- The obstacles that two draws deal to the lanes of tile `t`. -/
def deal (left right : ObstacleDraw K) (t : TileId) : List (Board.Move TileId Lane) :=
  (if left.wanted then [.put t .left] else []) ++ if right.wanted then [.put t .right] else []

/-- What an event does to the board. -/
def Event.boardMoves : Event K → List (Board.Move TileId Lane)
  | .recycle t left right => .clear t :: deal left right t
  | .hit o other => if !(other.isThis && other.isOwner) && other.hasPlayerTag then [.strike o] else []
  | _ => []

/-- What `BeginPlay` does to it, by `n` rounds of its loop: the first tile stays empty. -/
def BeginPlayAnswers.boardMoves (a : BeginPlayAnswers K) (n : ℕ) : List (Board.Move TileId Lane) :=
  (List.range n).flatMap fun i => deal (a.tile i).left (a.tile i).right (i + 1)

namespace World

/-! ## Dealing -/

theorem shows_withDraw {w : World K} {b : Board TileId Lane} (h : w.shelves.Shows b) {t : TileId} {l : Lane}
    (hv : w.shelves.Vacant t l) (d : ObstacleDraw K) :
    (w.withDraw d t l).shelves.Shows (b.play (if d.wanted then [.put t l] else [])) := by
  unfold withDraw
  split
  · rw [shelves_withObstacle]
    exact h.put hv
  · exact h

theorem shows_withDraws {w : World K} {b : Board TileId Lane} (h : w.shelves.Shows b) {t : TileId}
    (hv : ∀ l, w.shelves.Vacant t l) (left right : ObstacleDraw K) :
    (w.withDraws left right t).shelves.Shows (b.play (deal left right t)) := by
  rw [deal, Board.play_append]
  exact shows_withDraw (shows_withDraw h (hv .left) left) (vacant_withDraw_left (hv .right) left) right

omit [LinearOrder K] in
/-- A tile that is spawned is empty, and so was its place on the board. -/
theorem Kept.shelves_withTile {w : World K} (h : Kept w) (c : TileClass K) : (w.withTile c).shelves = w.shelves := by
  simp only [shelves, h.withTile_obstacles c]
  rfl

theorem shows_withRound {w : World K} {b : Board TileId Lane} (h : w.shelves.Shows b) (hw : Kept w) (c : TileClass K)
    (d : TileDraw K) : (w.withRound c d).shelves.Shows (b.play (deal d.left d.right w.numTiles)) := by
  have hshelves := hw.shelves_withTile c
  have hempty : (w.withTile c).shelves.entries w.numTiles = [] := by
    rw [hshelves]
    exact hw.blank w.numTiles le_rfl
  refine shows_withDraws ?_ (fun l => (hw.withTile c).sound.vacant_of_nil hempty l) d.left d.right
  rw [hshelves]
  exact h

theorem shows_recycled {w : World K} {b : Board TileId Lane} (h : w.shelves.Shows b) (hw : Kept w)
    (left right : ObstacleDraw K) (t last : TileId) :
    (w.recycled left right t last).shelves.Shows (b.play (.clear t :: deal left right t)) := by
  have hshelves : ((w.cleared t).toEnd t last).shelves = w.shelves.clear t := by
    rw [shelves_toEnd, shelves_cleared]
  refine shows_withDraws (w := (w.cleared t).toEnd t last) (b := b.move (.clear t)) ?_ ?_ left right
  · rw [hshelves]
    exact h.clear hw.sound t
  · intro l
    rw [hshelves]
    exact hw.sound.vacant_clear t l

/-! ## The refinement -/

/-- **Each event plays its moves.** -/
theorem shows_step {w w' : World K} {e : Event K} {b : Board TileId Lane} (hs : (game K).Step w e w') (hw : Kept w)
    (h : w.shelves.Shows b) : w'.shelves.Shows (b.play e.boardMoves) := by
  have hstep : w.step e = .ok w' := hs.2
  cases e with
  | physics dt =>
    cases hstep
    rw [physics, shelves_translateGround]
    exact h
  | translate d =>
    cases hstep
    rw [shelves_translateGround]
    exact h
  | spawnGroundTile spawned =>
    obtain ⟨c, _, rfl⟩ := step_spawnGroundTile hstep
    rw [hw.shelves_withTile]
    exact h
  | recycle t left right =>
    obtain ⟨_, _, last, _, rfl⟩ := recycleTile_eq_ok.mp hstep
    exact shows_recycled h hw left right t last
  | hit o other =>
    rcases onCollisionBoxOverlap_eq_ok.mp hstep with ⟨hmiss, rfl⟩ | ⟨⟨hother, htag, _⟩, rfl⟩
    · have hnone : (Event.hit o other : Event K).boardMoves = [] := by
        simp only [Event.boardMoves]
        cases hother : other.isThis && other.isOwner <;> cases htag : other.hasPlayerTag <;>
          simp [hother, htag] at hmiss ⊢
      rw [hnone]
      exact h
    · have hone : (Event.hit o other : Event K).boardMoves = [.strike o] := by
        simp [Event.boardMoves, hother, htag]
      obtain ⟨_, _, _, _, hstruck⟩ := struck_frame w o
      rw [hone, hstruck, shelves_destroy]
      exact h.kill o
  | collectGarbage =>
    cases hstep
    rw [shelves_collectGarbage]
    exact h.collect
  | _ =>
    rw [(sameRoad_step hs trivial).shelves]
    exact h

theorem shows_run {w u : World K} {es : List (Event K)} {b : Board TileId Lane} (hr : (game K).Run w es u)
    (hw : Kept w) (h : w.shelves.Shows b) : u.shelves.Shows (b.play (es.flatMap Event.boardMoves)) := by
  rw [Board.play, List.foldl_flatMap]
  refine (hr.foldl (R := fun v b => Kept v ∧ v.shelves.Shows b) ?_ ⟨hw, h⟩).2
  rintro v e v' b' hs ⟨hv, hshows⟩
  exact ⟨hv.step hs, shows_step hs hv hshows⟩

theorem shows_withRounds {w : World K} {b : Board TileId Lane} (h : w.shelves.Shows b) (hw : Kept w) (c : TileClass K)
    (a : BeginPlayAnswers K) (hone : w.numTiles = 1) : ∀ n, Kept (w.withRounds c a.tile n) ∧
      (w.withRounds c a.tile n).numTiles = n + 1 ∧
      (w.withRounds c a.tile n).shelves.Shows (b.play (a.boardMoves n))
  | 0 => ⟨hw, hone, h⟩
  | n + 1 => by
    obtain ⟨hkept, hnum, hshows⟩ := shows_withRounds h hw c a hone n
    refine ⟨hkept.withRound c (a.tile n), ?_, ?_⟩
    · show ((w.withRounds c a.tile n).withRound c (a.tile n)).numTiles = n + 1 + 1
      rw [(withRound_onlyObstacles _ c (a.tile n)).numTiles]
      exact congrArg (· + 1) hnum
    · have hround := shows_withRound hshows hkept c (a.tile n)
      rw [hnum, ← Board.play_append] at hround
      rw [BeginPlayAnswers.boardMoves, List.range_succ, List.flatMap_append, List.flatMap_singleton]
      exact hround

theorem Initial.shows [IsStrictOrderedRing K] {w w₀ : World K} {a : BeginPlayAnswers K} (init : w.Initial)
    (begun : w.beginPlay a = .ok w₀) :
    w₀.shelves.Shows (Board.empty.play (a.boardMoves w.gameMode.numInitialGroundTiles.toNat)) := by
  obtain ⟨c, _, _, _, rfl⟩ := beginPlay_eq_ok.mp begun
  have hone : (w.opened a.player c).numTiles = 1 := congrArg (· + 1) init.numTiles
  have hempty : (w.opened a.player c).shelves.Shows Board.empty := Shelves.shows_empty init.numObstacles
  exact (shows_withRounds hempty (init.kept_opened a.player c) c a hone _).2.2

/-- **The game refines the board.** After `BeginPlay` and any run, an obstacle is alive on a lane of a tile exactly when
it stands there on the board after the moves of the start-up loop and of the run: hits and recycles decide it, whatever
else happens and whenever garbage is collected. -/
theorem board_refined [IsStrictOrderedRing K] {w w₀ u : World K} {a : BeginPlayAnswers K} {es : List (Event K)}
    (init : w.Initial) (begun : w.beginPlay a = .ok w₀) (run : (game K).Run w₀ es u) (t : TileId) (l : Lane)
    (o : ObstacleId) :
    u.Alive o ∧ (u.obstacles o).attachParent = some (t, l) ↔
      (Board.empty.play (a.boardMoves w.gameMode.numInitialGroundTiles.toNat ++
        es.flatMap Event.boardMoves)).stands t l = some o := by
  rw [Board.play_append]
  exact ((shows_run run (init.kept begun) (init.shows begun)).stands t l o).symm

/-- The obstacle that was hit is gone from the board, and two new ones are on it. -/
theorem board_refined_staleRecycle :
    ∃ u, (game ℚ).Run fullRoad staleRecycle u ∧
      (u.Alive 2 ∧ (u.obstacles 2).attachParent = some (1, .left)) ∧
      ¬ (u.Alive 0 ∧ (u.obstacles 0).attachParent = some (1, .left)) := by
  obtain ⟨u, hu, _⟩ := run_staleRecycle
  have hboard := board_refined (World.fresh_initial _ 1) beginPlay_fullRoad hu 1 .left
  refine ⟨u, hu, (hboard 2).mpr (by decide +kernel), fun h => ?_⟩
  exact absurd ((hboard 0).mp h) (by decide +kernel)

/-! ## What was dealt last -/

/-- What stands on the two lanes of a tile when it was cleared and dealt to. -/
theorem stands_deal (b : Board TileId Lane) (left right : ObstacleDraw K) (t : TileId) :
    let b' := b.play (.clear t :: deal left right t)
    b'.stands t .left = (if left.wanted then some b.made else none) ∧
      b'.stands t .right = if right.wanted then some (if left.wanted then b.made + 1 else b.made) else none := by
  cases hl : left.wanted <;> cases hr : right.wanted <;> simp [deal, hl, hr, Board.play, Board.move]

/-- Events that do not recycle a tile renew none of its places. -/
theorem not_renews {es : List (Event K)} {t : TileId} (hes : ∀ left right, Event.recycle t left right ∉ es) (l : Lane) :
    ∀ m ∈ es.flatMap Event.boardMoves, ¬ m.Renews t l := by
  intro m hm
  obtain ⟨e, he, hme⟩ := List.mem_flatMap.mp hm
  cases e with
  | recycle s left right =>
    have hne : s ≠ t := fun heq => hes left right (heq ▸ he)
    simp only [Event.boardMoves, deal, List.mem_cons, List.mem_append] at hme
    rcases hme with rfl | hleft | hright
    · exact hne
    · split at hleft
      · cases List.mem_singleton.mp hleft
        exact fun h => hne h.1
      · exact absurd hleft List.not_mem_nil
    · split at hright
      · cases List.mem_singleton.mp hright
        exact fun h => hne h.1
      · exact absurd hright List.not_mem_nil
  | hit o other =>
    simp only [Event.boardMoves] at hme
    split at hme
    · cases List.mem_singleton.mp hme
      exact id
    · exact absurd hme List.not_mem_nil
  | _ => exact absurd hme List.not_mem_nil

end World

/-- One of the events is a hit of the obstacle by an actor with the player's tag. -/
def Struck (o : ObstacleId) (es : List (Event K)) : Prop :=
  ∃ other : OtherActor, Event.hit o other ∈ es ∧ (other.isThis && other.isOwner) = false ∧ other.hasPlayerTag = true

theorem not_mem_deal (left right : ObstacleDraw K) (t : TileId) (o : ObstacleId) :
    Board.Move.strike o ∉ deal left right t := by
  unfold deal
  split_ifs <;> simp

theorem strike_mem_iff {o : ObstacleId} {es : List (Event K)} :
    Board.Move.strike o ∈ es.flatMap Event.boardMoves ↔ Struck o es := by
  rw [List.mem_flatMap]
  constructor
  · rintro ⟨e, he, hm⟩
    cases e with
    | hit p other =>
      simp only [Event.boardMoves] at hm
      split at hm
      · rename_i hmeets
        cases List.mem_singleton.mp hm
        simp only [Bool.and_eq_true, Bool.not_eq_true'] at hmeets
        exact ⟨other, he, hmeets⟩
      · exact absurd hm List.not_mem_nil
    | recycle t left right =>
      rcases List.mem_cons.mp hm with hm | hm
      · cases hm
      · exact absurd hm (not_mem_deal left right t o)
    | _ => exact absurd hm List.not_mem_nil
  · rintro ⟨other, he, hother, htag⟩
    exact ⟨_, he, by simp [Event.boardMoves, hother, htag]⟩

namespace World

/-- An obstacle that is not hit, and whose tile is not recycled, stays. -/
theorem alive_run {v u : World K} {es : List (Event K)} {b : Board TileId Lane} {o : ObstacleId} {t : TileId} {l : Lane}
    (hr : (game K).Run v es u) (hv : Kept v) (hb : v.shelves.Shows b) (ho : v.Alive o)
    (hplace : (v.obstacles o).attachParent = some (t, l)) (hes : ∀ left right, Event.recycle t left right ∉ es)
    (hstruck : ¬ Struck o es) : u.Alive o := by
  have hstands : b.stands t l = some o := (hb.stands t l o).mpr ⟨ho, hplace⟩
  have hstays := (Board.stands_play _ (not_renews hes l) o).mpr ⟨hstands, strike_mem_iff.not.mpr hstruck⟩
  exact (((shows_run hr hv hb).stands t l o).mp hstays).1

/-- **What stands on a tile is what its last recycle dealt to it and was not hit since.** `n` is the number of obstacles
that were ever spawned before that recycle: its draws are the next ones. -/
theorem obstacles_since_recycle [IsStrictOrderedRing K] {w w₀ v u : World K} {a : BeginPlayAnswers K}
    {es fs : List (Event K)} {t : TileId} {left right : ObstacleDraw K} (init : w.Initial)
    (begun : w.beginPlay a = .ok w₀) (before : (game K).Run w₀ es v)
    (run : (game K).Run v (.recycle t left right :: fs) u) (last : ∀ left right, Event.recycle t left right ∉ fs)
    (o : ObstacleId) :
    let n := v.numObstacles
    (u.Alive o ∧ (u.obstacles o).attachParent = some (t, .left) ↔ left.wanted = true ∧ o = n ∧ ¬ Struck o fs) ∧
    (u.Alive o ∧ (u.obstacles o).attachParent = some (t, .right) ↔
      right.wanted = true ∧ o = (if left.wanted then n + 1 else n) ∧ ¬ Struck o fs) := by
  have hv : Kept v := before.invariant (fun _ _ _ hs hw => hw.step hs) (init.kept begun)
  obtain ⟨b, hb⟩ : ∃ b, v.shelves.Shows b := ⟨_, shows_run before (init.kept begun) (init.shows begun)⟩
  have hshows := (shows_run run hv hb).stands t
  rw [List.flatMap_cons, Board.play_append] at hshows
  obtain ⟨hleft, hright⟩ := stands_deal b left right t
  rw [hb.made] at hleft hright
  -- what comes after the deal renews neither lane
  have hkeeps : ∀ l, u.Alive o ∧ (u.obstacles o).attachParent = some (t, l) ↔
      (b.play (.clear t :: deal left right t)).stands t l = some o ∧ ¬ Struck o fs := by
    intro l
    rw [← strike_mem_iff, ← Board.stands_play _ (not_renews last l)]
    exact (hshows l o).symm
  have hwanted : ∀ (wanted : Bool) (n : ObstacleId), (if wanted then some n else none) = some o ∧ ¬ Struck o fs ↔
      wanted = true ∧ o = n ∧ ¬ Struck o fs := by
    intro wanted n
    cases wanted with
    | false => simp
    | true => simp only [if_true, Option.some.injEq, true_and, eq_comm (a := n)]
  rw [hkeeps, hkeeps, hleft, hright]
  exact ⟨hwanted left.wanted _, hwanted right.wanted _⟩

/-- A tile whose lanes were both filled: the left obstacle is hit, the right one stands. -/
theorem obstacles_since_recycle_hit :
    ∃ u, (game ℚ).Run fullRoad [.recycle 1 ⟨1, true⟩ ⟨1, true⟩, .hit 2 .runner, .collectGarbage] u ∧
      (u.Alive 3 ∧ (u.obstacles 3).attachParent = some (1, .right)) ∧
      ¬ (u.Alive 2 ∧ (u.obstacles 2).attachParent = some (1, .left)) := by
  obtain ⟨u, hu⟩ := Machine.exists_run_of_exec (M := game ℚ) fullRoad
    [.recycle 1 ⟨1, true⟩ ⟨1, true⟩, .hit 2 .runner, .collectGarbage] (by decide +kernel)
  have hlast : ∀ left right, Event.recycle 1 left right ∉ [.hit 2 .runner, (.collectGarbage : Event ℚ)] := by
    simp
  have hsince := obstacles_since_recycle (World.fresh_initial _ 1) beginPlay_fullRoad (.nil _) hu hlast
  refine ⟨u, hu, (hsince 3).2.mpr ⟨by decide +kernel, by decide +kernel, ?_⟩, fun h => ?_⟩
  · rintro ⟨other, hmem, _⟩
    simp at hmem
  · obtain ⟨_, _, hstruck⟩ := (hsince 2).1.mp h
    exact hstruck ⟨.runner, List.mem_cons_self, rfl, rfl⟩

/-! ## How many obstacles there are -/

/-- The obstacles that live, as a finite set. -/
def aliveObstacles (w : World K) : Finset ObstacleId :=
  (Finset.range w.numObstacles).filter fun o => (w.obstacles o).pendingKill = false

/-- **There are never more than two live obstacles for each tile that was spawned**, however many were spawned in the
run. -/
theorem obstacles_bounded [IsStrictOrderedRing K] {w w₀ u : World K} {a : BeginPlayAnswers K} {es : List (Event K)}
    (init : w.Initial) (begun : w.beginPlay a = .ok w₀) (run : (game K).Run w₀ es u) :
    u.aliveObstacles.card ≤ 2 * u.numTiles := by
  have hu : Kept u := run.invariant (fun _ _ _ hs hw => hw.step hs) (init.kept begun)
  have hplaces : ∀ o t l, u.shelves.Live o → u.shelves.place o = some (t, l) →
      (t, l) ∈ Finset.range u.numTiles ×ˢ ({.left, .right} : Finset Lane) := by
    intro o t l ho hplace
    obtain ⟨t', l', hplace', hl, ht, _⟩ := hu.exists_place ho
    cases hplace'.symm.trans hplace
    refine Finset.mem_product.mpr ⟨Finset.mem_range.mpr ht, ?_⟩
    cases l with
    | left => exact Finset.mem_insert_self _ _
    | center => exact absurd rfl hl
    | right => exact Finset.mem_insert_of_mem (Finset.mem_singleton_self _)
  have hcard := hu.sound.card_live_le hplaces
  rw [Finset.card_product, Finset.card_range, Nat.mul_comm] at hcard
  exact hcard

theorem obstacles_bounded_staleRecycle :
    ∃ u, (game ℚ).Run fullRoad staleRecycle u ∧ u.aliveObstacles.card ≤ 2 * u.numTiles := by
  obtain ⟨u, hu, _⟩ := run_staleRecycle
  exact ⟨u, hu, obstacles_bounded (World.fresh_initial _ 1) beginPlay_fullRoad hu⟩

end World

end EndlessRunner
