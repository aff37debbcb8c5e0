import EndlessRunner.Laws.Frames
import EndlessRunner.Lib.Shelves
import Mathlib.Algebra.Order.Ring.Rat

/-!
# The obstacles on the tiles

A tile's list of obstacles is knowingly stale: a hit destroys the obstacle and leaves its entry, and a garbage
collection turns the entry to null. Seen as shelves of weak references (`World.shelves`), with a tile for a
shelf and a lane for a slot, each function of the source is one of the operations of `Lib.Shelves`, and `Kept`
is what they preserve. So no obstacle is orphaned and the centre lane stays free
(`World.obstacles_leave_a_way`).

The lists themselves grow: `ClearObstacles` passes over null entries, so it empties a list exactly when the
list has none (`World.lists_bounded_iff`).
-/

set_option autoImplicit false

namespace EndlessRunner

open Lib (Machine Shelves)

variable {K : Type} [Field K]

namespace World

/-- The tiles as shelves, their lanes as slots and the obstacles on them. -/
def shelves (w : World K) : Shelves TileId Lane where
  entries t := (w.tiles t).obstacles
  place o := (w.obstacles o).attachParent
  dead o := (w.obstacles o).pendingKill
  made := w.numObstacles

/-! ## The functions of the source, on the shelves -/

theorem SameRoad.shelves {w w' : World K} (h : SameRoad w w') : w'.shelves = w.shelves := by
  simp only [World.shelves, h.tiles, h.obstacles, h.numObstacles]

theorem shelves_destroy (w : World K) (o : ObstacleId) : (w.destroy o).shelves = w.shelves.kill o := by
  have hplace : (fun p => ((w.destroy o).obstacles p).attachParent) = fun p => (w.obstacles p).attachParent := by
    refine (Function.comp_update BaseObstacle.attachParent w.obstacles o _).trans ?_
    exact Function.update_eq_self o fun p => (w.obstacles p).attachParent
  have hdead : (fun p => ((w.destroy o).obstacles p).pendingKill) =
      Function.update (fun p => (w.obstacles p).pendingKill) o true :=
    Function.comp_update BaseObstacle.pendingKill w.obstacles o _
  simp only [shelves, hplace, hdead, Shelves.kill]
  rfl

theorem shelves_collectGarbage (w : World K) : w.collectGarbage.shelves = w.shelves.collect := by
  have hentry : w.collectEntry = w.shelves.collectEntry := by
    funext e
    cases e <;> rfl
  simp only [shelves, collectGarbage, hentry]
  rfl

theorem shelves_withObstacle (w : World K) (t : TileId) (l : Lane) :
    (w.withObstacle t l).shelves = w.shelves.put t l := by
  simp only [shelves, withObstacle, Shelves.put, Shelves.mk.injEq, and_true]
  exact ⟨Function.comp_update GroundTile.obstacles w.tiles t _,
    Function.comp_update BaseObstacle.attachParent w.obstacles _ _,
    Function.comp_update BaseObstacle.pendingKill w.obstacles _ _⟩

theorem shelves_cleared (w : World K) (t : TileId) : (w.cleared t).shelves = w.shelves.clear t := by
  have hentries : (fun s => ((w.cleared t).tiles s).obstacles) =
      Function.update (fun s => (w.tiles s).obstacles) t ((w.tiles t).obstacles.filter (·.isNone)) := by
    funext s
    by_cases hs : s = t
    · subst hs
      rw [cleared_obstacles, Function.update_self]
    · rw [Function.update_of_ne hs, tiles_cleared_of_ne w hs]
  have hplace : (fun o => ((w.cleared t).obstacles o).attachParent) = fun o => (w.obstacles o).attachParent := by
    funext o
    rw [cleared_obstacle]
    split_ifs <;> rfl
  have hdead : (fun o => ((w.cleared t).obstacles o).pendingKill) = fun o =>
      (w.obstacles o).pendingKill || decide (some o ∈ (w.tiles t).obstacles) := by
    funext o
    rw [cleared_obstacle]
    split_ifs with h
    · simp only [h, decide_true, Bool.or_true]
    · simp only [h, decide_false, Bool.or_false]
  simp only [shelves, hentries, hplace, hdead, Shelves.clear]
  rfl

/-- Moving a tile to the end keeps its obstacles. -/
theorem toEnd_obstacles (w : World K) (t last s : TileId) :
    ((w.toEnd t last).tiles s).obstacles = (w.tiles s).obstacles := by
  by_cases hs : s = t
  · subst hs
    rw [tiles_toEnd_self, GroundTile.setActorLocation_obstacles]
  · rw [tiles_toEnd_of_ne w last hs]

theorem shelves_toEnd (w : World K) (t last : TileId) : (w.toEnd t last).shelves = w.shelves := by
  simp only [shelves, toEnd_obstacles]
  rfl

theorem shelves_translateGround (w : World K) (d : FVector K) : (w.translateGround d).shelves = w.shelves := by
  simp only [shelves, translateGround, GroundTile.moveBy_obstacles]

/-- A new tile has no obstacle. -/
theorem withTile_obstacles (w : World K) (c : TileClass K) (s : TileId) :
    ((w.withTile c).tiles s).obstacles = if s = w.numTiles then [] else (w.tiles s).obstacles := by
  by_cases hs : s = w.numTiles
  · simp [withTile, hs]
  · simp [withTile, hs]

/-! ## The invariant -/

/-- Only tiles that were spawned are in the pool or have obstacles, and the shelves are sound, with no
obstacle on a centre lane. -/
structure Kept (w : World K) : Prop where
  pool : ∀ t, some t ∈ w.gameMode.groundTiles → t < w.numTiles
  blank : ∀ t, w.numTiles ≤ t → (w.tiles t).obstacles = []
  sound : w.shelves.Sound (· ≠ .center)

theorem Kept.of_sameRoad {w w' : World K} (h : Kept w) (hsame : SameRoad w w') : Kept w' where
  pool t ht := by
    rw [hsame.numTiles]
    exact h.pool t (hsame.groundTiles ▸ ht)
  blank t ht := by
    rw [hsame.tiles]
    exact h.blank t (hsame.numTiles ▸ ht)
  sound := hsame.shelves ▸ h.sound

theorem Kept.destroy {w : World K} (h : Kept w) (o : ObstacleId) : Kept (w.destroy o) where
  pool := h.pool
  blank := h.blank
  sound := shelves_destroy w o ▸ h.sound.kill o

theorem Kept.collectGarbage {w : World K} (h : Kept w) : Kept w.collectGarbage where
  pool := h.pool
  blank t ht := by
    show (w.tiles t).obstacles.map w.collectEntry = []
    rw [h.blank t ht, List.map_nil]
  sound := shelves_collectGarbage w ▸ h.sound.collect

theorem Kept.translateGround {w : World K} (h : Kept w) (d : FVector K) : Kept (w.translateGround d) where
  pool := h.pool
  blank t ht := (GroundTile.moveBy_obstacles _ d).trans (h.blank t ht)
  sound := shelves_translateGround w d ▸ h.sound

theorem Kept.cleared {w : World K} (h : Kept w) {t : TileId} (ht : t < w.numTiles) : Kept (w.cleared t) where
  pool := h.pool
  blank s hs := by
    rw [tiles_cleared_of_ne w (ht.trans_le hs).ne']
    exact h.blank s hs
  sound := shelves_cleared w t ▸ h.sound.clear t

theorem Kept.toEnd {w : World K} (h : Kept w) {t : TileId} (ht : t < w.numTiles) (last : TileId) :
    Kept (w.toEnd t last) where
  pool s hs := by
    rcases List.mem_append.mp hs with hmem | hmem
    · exact h.pool s (List.mem_filter.mp hmem).1
    · cases List.mem_singleton.mp hmem
      exact ht
  blank s hs := (toEnd_obstacles w t last s).trans (h.blank s hs)
  sound := shelves_toEnd w t last ▸ h.sound

/-- A new tile is blank, as its identity was before. -/
theorem Kept.withTile_obstacles {w : World K} (h : Kept w) (c : TileClass K) (s : TileId) :
    ((w.withTile c).tiles s).obstacles = (w.tiles s).obstacles := by
  rw [World.withTile_obstacles]
  split_ifs with hs
  · exact (h.blank s hs.ge).symm
  · rfl

theorem Kept.withTile {w : World K} (h : Kept w) (c : TileClass K) : Kept (w.withTile c) where
  pool t ht := by
    rcases List.mem_append.mp ht with hmem | hmem
    · exact (h.pool t hmem).trans (Nat.lt_succ_self _)
    · cases List.mem_singleton.mp hmem
      exact Nat.lt_succ_self _
  blank t ht := (h.withTile_obstacles c t).trans (h.blank t (Nat.le_of_succ_le ht))
  sound := by
    have hshelves : (w.withTile c).shelves = w.shelves := by
      simp only [shelves, h.withTile_obstacles c]
      rfl
    exact hshelves ▸ h.sound

theorem Kept.withObstacle {w : World K} (h : Kept w) {t : TileId} (ht : t < w.numTiles) {l : Lane}
    (hl : l ≠ .center) (hv : w.shelves.Vacant t l) : Kept (w.withObstacle t l) where
  pool := h.pool
  blank s hs := by
    rw [tiles_withObstacle_of_ne w l (ht.trans_le hs).ne']
    exact h.blank s hs
  sound := shelves_withObstacle w t l ▸ h.sound.put hl hv

/-- A live obstacle is on a lane of a tile that was spawned. -/
theorem Kept.exists_place {w : World K} (h : Kept w) {o : ObstacleId} (ho : w.Alive o) :
    ∃ t l, (w.obstacles o).attachParent = some (t, l) ∧ l ≠ .center ∧ t < w.numTiles ∧
      some o ∈ (w.tiles t).obstacles := by
  obtain ⟨t, l, hplace, hl, hcount⟩ := h.sound.listed o ho
  have hmem : some o ∈ (w.tiles t).obstacles := List.count_pos_iff.mp (hcount ▸ Nat.one_pos)
  refine ⟨t, l, hplace, hl, Nat.lt_of_not_le fun hle => ?_, hmem⟩
  rw [h.blank t hle] at hmem
  exact absurd hmem List.not_mem_nil

section Ordered

variable [LinearOrder K]

theorem Kept.withDraw {w : World K} (h : Kept w) {t : TileId} (ht : t < w.numTiles) {l : Lane}
    (hl : l ≠ .center) (hv : w.shelves.Vacant t l) (d : ObstacleDraw K) : Kept (w.withDraw d t l) := by
  unfold World.withDraw
  split
  · exact h.withObstacle ht hl hv
  · exact h

/-- Filling the left lane leaves the right one vacant. -/
theorem vacant_withDraw_left {w : World K} {t : TileId} (hv : w.shelves.Vacant t .right) (d : ObstacleDraw K) :
    (w.withDraw d t .left).shelves.Vacant t .right := by
  unfold World.withDraw
  split
  · rw [shelves_withObstacle]
    exact hv.put fun h => by cases h
  · exact hv

theorem Kept.withDraws {w : World K} (h : Kept w) {t : TileId} (ht : t < w.numTiles)
    (hv : ∀ l, w.shelves.Vacant t l) (left right : ObstacleDraw K) : Kept (w.withDraws left right t) := by
  have hleft := h.withDraw ht (by decide) (hv .left) left
  have hnum : t < (w.withDraw left t .left).numTiles :=
    (onlyObstacles_withDraw w left t .left).numTiles ▸ ht
  exact hleft.withDraw hnum (by decide) (vacant_withDraw_left (hv .right) left) right

/-- **`RecycleTile` fills the lanes of the tile it has cleared.** -/
theorem Kept.recycled {w : World K} (h : Kept w) {t : TileId} (ht : t < w.numTiles)
    (left right : ObstacleDraw K) (last : TileId) : Kept (w.recycled left right t last) := by
  have hend : Kept ((w.cleared t).toEnd t last) := (h.cleared ht).toEnd ht last
  refine hend.withDraws ht (fun l => ?_) left right
  rw [shelves_toEnd, shelves_cleared]
  exact h.sound.vacant_clear t l

/-- **A round of the start-up loop fills the lanes of a new tile.** -/
theorem Kept.withRound {w : World K} (h : Kept w) (c : TileClass K) (d : TileDraw K) :
    Kept (w.withRound c d) := by
  have htile := h.withTile c
  refine htile.withDraws (Nat.lt_succ_self _) (fun l => ?_) d.left d.right
  exact htile.sound.vacant_of_nil ((h.withTile_obstacles c _).trans (h.blank _ le_rfl)) l

/-- **Every event keeps the obstacles.** -/
theorem Kept.step {w w' : World K} {e : Event K} (h : Kept w) (hs : (game K).Step w e w') : Kept w' := by
  rcases obstacleStep_cases hs with ⟨_, hsame⟩ | ⟨_, v, o, hsame, rfl⟩ | ⟨_, rfl⟩ | ⟨d, _, rfl⟩ | ⟨_, c, _, _, rfl⟩ |
    ⟨t, left, right, last, _, hmem, _, rfl⟩
  · exact h.of_sameRoad hsame
  · exact (h.of_sameRoad hsame).destroy o
  · exact h.collectGarbage
  · exact h.translateGround d
  · exact h.withTile c
  · exact h.recycled (h.pool t hmem) left right last

omit [LinearOrder K] in
theorem Initial.kept_opened {w : World K} (init : w.Initial) (player : Option CharacterId) (c : TileClass K) :
    Kept (w.opened player c) := by
  have hempty : Kept (w.prepared player) := by
    refine ⟨fun t ht => ?_, fun t _ => init.blank t, Shelves.Sound.of_empty init.numObstacles init.blank⟩
    have hnil : (w.prepared player).gameMode.groundTiles = [] := init.groundTiles
    rw [hnil] at ht
    exact absurd ht List.not_mem_nil
  obtain ⟨hpool, hblank, hsound⟩ := hempty.withTile c
  exact ⟨hpool, hblank, hsound⟩

theorem Initial.kept [IsStrictOrderedRing K] {w w₀ : World K} {a : BeginPlayAnswers K} (init : w.Initial)
    (begun : w.beginPlay a = .ok w₀) : Kept w₀ := by
  obtain ⟨c, hc⟩ := beginPlay_class begun
  exact beginPlay_induction begun hc (init.kept_opened a.player c) fun u d hu => hu.withRound c d

/-- **No obstacle is orphaned, and there is a way through.** In every state that the game reaches from
`BeginPlay`, whatever the order of its events: each live obstacle is attached to the left or right lane of a
spawned tile and occurs in that tile's list, once, and in no other; no two of them share a lane of a tile;
and none is on a centre lane. -/
theorem obstacles_leave_a_way [IsStrictOrderedRing K] {w w₀ u : World K} {a : BeginPlayAnswers K} {es : List (Event K)}
    (init : w.Initial) (begun : w.beginPlay a = .ok w₀) (run : (game K).Run w₀ es u) :
    (∀ o, u.Alive o → ∃ t l, (u.obstacles o).attachParent = some (t, l) ∧ (l = .left ∨ l = .right) ∧
      t < u.numTiles ∧ ∀ s, (u.tiles s).obstacles.count (some o) = if s = t then 1 else 0) ∧
    (∀ o o', u.Alive o → u.Alive o' → (u.obstacles o).attachParent = (u.obstacles o').attachParent →
      o = o') ∧
    ∀ o t, u.Alive o → (u.obstacles o).attachParent ≠ some (t, .center) := by
  have hu : Kept u := run.invariant (fun _ _ _ hs hw => hw.step hs) (init.kept begun)
  refine ⟨fun o ho => ?_, hu.sound.single, fun o t ho hcenter => ?_⟩
  · obtain ⟨t, l, hplace, hl, hcount⟩ := hu.sound.count_eq ho
    refine ⟨t, l, hplace, ?_, ?_, hcount⟩
    · cases l with
      | left => exact .inl rfl
      | center => exact absurd rfl hl
      | right => exact .inr rfl
    · refine Nat.lt_of_not_le fun hle => ?_
      have hone := hcount t
      rw [if_pos rfl, show u.shelves.entries t = [] from hu.blank t hle, List.count_nil] at hone
      exact absurd hone Nat.zero_ne_one
  · obtain ⟨s, l, hplace, hl, _⟩ := hu.sound.listed o ho
    cases hplace.symm.trans hcenter
    exact hl rfl

/-- A tile with both lanes filled, and the run in which one of its obstacles is hit and collected before the
tile is recycled. -/
def fullRoad : World ℚ := started (.ofOffsets 0 0 0 0 0) 1 (some ()) .full

def staleRecycle : List (Event ℚ) := [.hit 0 .runner, .collectGarbage, .recycle 1 ⟨1, true⟩ ⟨1, true⟩]

theorem beginPlay_fullRoad :
    (World.fresh (.ofOffsets 0 0 0 0 0) 1).beginPlay ⟨some (), true, fun _ => .full⟩ = .ok fullRoad :=
  beginPlay_fresh _ 1 _ TileDraw.safe_full

theorem run_staleRecycle :
    ∃ u, (game ℚ).Run fullRoad staleRecycle u ∧ (u.tiles 1).obstacles = [none, some 2, some 3] := by
  obtain ⟨u, hexec, hlist⟩ : ∃ u, (game ℚ).exec fullRoad staleRecycle = some u ∧
      (u.tiles 1).obstacles = [none, some 2, some 3] :=
    Option.map_eq_some_iff.mp (by decide +kernel)
  exact ⟨u, Machine.exec_eq_some.mp hexec, hlist⟩

/-- After it, obstacle 3 stands once in the list of tile 1 and in no other, on a lane at the side. -/
theorem obstacles_leave_a_way_staleRecycle :
    ∃ u, (game ℚ).Run fullRoad staleRecycle u ∧ u.Alive 3 ∧
      (∃ l, (u.obstacles 3).attachParent = some (1, l) ∧ (l = .left ∨ l = .right)) ∧
      ∀ s, (u.tiles s).obstacles.count (some 3) = if s = 1 then 1 else 0 := by
  obtain ⟨u, hexec, hstate⟩ : ∃ u, (game ℚ).exec fullRoad staleRecycle = some u ∧
      (u.numObstacles, (u.obstacles 3).pendingKill, (u.tiles 1).obstacles) = (4, false, [none, some 2, some 3]) :=
    Option.map_eq_some_iff.mp (by decide +kernel)
  simp only [Prod.mk.injEq] at hstate
  obtain ⟨hnum, hkill, hlist⟩ := hstate
  have hu := Machine.exec_eq_some.mp hexec
  have halive : u.Alive 3 := ⟨hnum ▸ (by decide), hkill⟩
  obtain ⟨t, l, hplace, hside, _, hcount⟩ :=
    (obstacles_leave_a_way (World.fresh_initial _ 1) beginPlay_fullRoad hu).1 3 halive
  -- tile 1 has it in its list, so it is the tile
  have hone := hcount 1
  rw [hlist] at hone
  have ht : 1 = t := by
    by_contra hne
    rw [if_neg hne] at hone
    exact absurd hone (by decide)
  subst ht
  exact ⟨u, hu, halive, ⟨l, hplace, hside⟩, hcount⟩

/-! ## The length of the lists -/

/-- `ClearObstacles`, where a recycle calls it, leaves the tile's list empty. -/
def ClearsList (w : World K) : Event K → Prop
  | .recycle t _ _ => ∀ v, w.clearObstacles (some t) = .ok v → (v.tiles t).obstacles = []
  | _ => True

/-- No list has more entries than the two lanes that are filled. -/
def AtMostTwo (w : World K) : Prop := ∀ t, (w.tiles t).obstacles.length ≤ 2

/-- A recycled tile has no null entry: none of its obstacles was destroyed and then collected. -/
def WithoutNull (w : World K) : Event K → Prop
  | .recycle t _ _ => none ∉ (w.tiles t).obstacles
  | _ => True

omit [LinearOrder K] in
/-- **`ClearObstacles` passes over null entries, and over nothing else.** -/
theorem clearsList_iff {w : World K} {e : Event K} : ClearsList w e ↔ WithoutNull w e := by
  cases e with
  | recycle t left right =>
    have hcleared : ClearsList w (.recycle t left right) ↔ ((w.cleared t).tiles t).obstacles = [] := by
      simp only [ClearsList, clearObstacles_some, Except.ok.injEq, forall_eq']
    rw [hcleared, cleared_obstacles, List.filter_eq_nil_iff]
    simp only [Option.isNone_iff_eq_none, WithoutNull]
    exact ⟨fun h hmem => h none hmem rfl, fun h e he hnone => h (hnone ▸ he)⟩
  | _ => exact Iff.rfl

theorem length_withDraw (w : World K) (d : ObstacleDraw K) (t : TileId) (l : Lane) (s : TileId) :
    ((w.withDraw d t l).tiles s).obstacles.length ≤
      (w.tiles s).obstacles.length + if s = t then 1 else 0 := by
  unfold withDraw
  split
  · by_cases hs : s = t
    · subst hs
      simp [withObstacle]
    · simp [withObstacle, hs]
  · exact Nat.le_add_right _ _

/-- The two draws add at most two entries, to the list of the tile. -/
theorem length_withDraws (w : World K) (left right : ObstacleDraw K) (t s : TileId) :
    ((w.withDraws left right t).tiles s).obstacles.length ≤
      (w.tiles s).obstacles.length + if s = t then 2 else 0 := by
  have hleft := length_withDraw w left t .left s
  have hright := length_withDraw (w.withDraw left t .left) right t .right s
  unfold withDraws
  split_ifs at * <;> omega

omit [LinearOrder K] in
theorem AtMostTwo.of_sameRoad {w w' : World K} (h : AtMostTwo w) (hsame : SameRoad w w') : AtMostTwo w' :=
  fun t => by rw [hsame.tiles]; exact h t

omit [LinearOrder K] in
theorem AtMostTwo.withTile {w : World K} (h : AtMostTwo w) (c : TileClass K) : AtMostTwo (w.withTile c) := by
  intro s
  rw [withTile_obstacles]
  split_ifs
  · exact Nat.zero_le 2
  · exact h s

theorem AtMostTwo.withRound {w : World K} (h : AtMostTwo w) (c : TileClass K) (d : TileDraw K) :
    AtMostTwo (w.withRound c d) := by
  intro s
  refine (length_withDraws (w.withTile c) d.left d.right w.numTiles s).trans ?_
  rw [withTile_obstacles]
  split_ifs
  · exact le_rfl
  · exact h s

theorem AtMostTwo.recycled {w : World K} (h : AtMostTwo w) {t : TileId} (hnull : none ∉ (w.tiles t).obstacles)
    (left right : ObstacleDraw K) (last : TileId) : AtMostTwo (w.recycled left right t last) := by
  intro s
  refine (length_withDraws ((w.cleared t).toEnd t last) left right t s).trans ?_
  rw [toEnd_obstacles]
  by_cases hs : s = t
  · subst hs
    have hnil : ((w.cleared s).tiles s).obstacles = [] := by
      rw [cleared_obstacles, List.filter_eq_nil_iff]
      exact fun e he hnone => hnull (Option.isNone_iff_eq_none.mp hnone ▸ he)
    rw [hnil, if_pos rfl]
    exact le_rfl
  · rw [if_neg hs, Nat.add_zero, tiles_cleared_of_ne w hs]
    exact h s

/-- Every event but the recycle of a tile with a null entry keeps the lists short. -/
theorem AtMostTwo.step {w w' : World K} {e : Event K} (h : AtMostTwo w) (hs : (game K).Step w e w')
    (hnull : WithoutNull w e) : AtMostTwo w' := by
  rcases obstacleStep_cases hs with ⟨_, hsame⟩ | ⟨_, v, o, hsame, rfl⟩ | ⟨_, rfl⟩ | ⟨d, _, rfl⟩ | ⟨_, c, _, _, rfl⟩ |
    ⟨t, left, right, last, rfl, _, _, rfl⟩
  · exact h.of_sameRoad hsame
  · exact (h.of_sameRoad hsame : AtMostTwo v)
  · exact fun t => (List.length_map _).trans_le (h t)
  · exact fun t => (congrArg List.length (GroundTile.moveBy_obstacles _ _)).trans_le (h t)
  · exact h.withTile c
  · exact h.recycled hnull left right last

theorem Initial.atMostTwo [IsStrictOrderedRing K] {w w₀ : World K} {a : BeginPlayAnswers K} (init : w.Initial)
    (begun : w.beginPlay a = .ok w₀) : AtMostTwo w₀ := by
  obtain ⟨c, hc⟩ := beginPlay_class begun
  have hprepared : AtMostTwo (w.prepared a.player) := fun t =>
    (congrArg List.length (init.blank t)).trans_le (Nat.zero_le 2)
  exact beginPlay_induction begun hc (hprepared.withTile c) fun u d hu => hu.withRound c d

/-- **The lists are cleared, and stay short, exactly in the runs that recycle no tile with a null entry.** -/
theorem lists_bounded_iff [IsStrictOrderedRing K] {w w₀ u : World K} {a : BeginPlayAnswers K} {es : List (Event K)}
    (init : w.Initial) (begun : w.beginPlay a = .ok w₀) (run : (game K).Run w₀ es u) :
    ((game K).Along ClearsList w₀ es ∧ (game K).Throughout AtMostTwo w₀ es) ↔
      (game K).Along WithoutNull w₀ es := by
  constructor
  · rintro ⟨hclears, _⟩ es₁ e es₂ v hsplit hv
    exact clearsList_iff.mp (hclears es₁ e es₂ v hsplit hv)
  · intro hnull
    refine ⟨fun es₁ e es₂ v hsplit hv => clearsList_iff.mpr (hnull es₁ e es₂ v hsplit hv), ?_⟩
    rintro es₁ es₂ v rfl hv
    have hrun := Machine.restrict_run.mpr ⟨run, hnull⟩
    obtain ⟨v', hv', _⟩ := Machine.run_append.mp hrun
    refine hv'.of_restrict.det hv ▸ hv'.invariant (fun x e y hxy hx => ?_) (init.atMostTwo begun)
    obtain ⟨hstep, hnot⟩ := Machine.restrict_step.mp hxy
    exact hx.step hstep hnot

theorem lists_bounded_iff_staleRecycle :
    ((game ℚ).Along ClearsList fullRoad staleRecycle ∧ (game ℚ).Throughout AtMostTwo fullRoad staleRecycle) ↔
      (game ℚ).Along WithoutNull fullRoad staleRecycle := by
  obtain ⟨u, hu, _⟩ := run_staleRecycle
  exact lists_bounded_iff (World.fresh_initial _ 1) beginPlay_fullRoad hu

/-- A collection between the hit and the recycle leaves the tile with three entries, one of them null. -/
theorem not_lists_bounded :
    ¬ ∀ (w w₀ u : World ℚ) (a : BeginPlayAnswers ℚ) (es : List (Event ℚ)), w.Initial →
      w.beginPlay a = .ok w₀ → (game ℚ).Run w₀ es u →
      (game ℚ).Along ClearsList w₀ es ∧ (game ℚ).Throughout AtMostTwo w₀ es := by
  intro h
  obtain ⟨u, hu, hlist⟩ := run_staleRecycle
  have hshort := (h _ _ u _ _ (World.fresh_initial _ 1) beginPlay_fullRoad hu).2 _ [] u
    (List.append_nil _).symm hu 1
  rw [hlist] at hshort
  exact absurd hshort (by decide)

end Ordered

end World

end EndlessRunner
