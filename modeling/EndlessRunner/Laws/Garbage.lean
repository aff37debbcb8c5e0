import EndlessRunner.Laws.Obstacles
import EndlessRunner.Laws.Parts

/-!
# Garbage collection cannot be observed

A collection turns list entries to null, and `ClearObstacles` treats null entries and those of destroyed obstacles
differently. All the same no run can tell whether and when garbage was collected: put collections into it or take them
out, and it leads to the same world but for entries that are null or name a destroyed obstacle
(`World.collections_unobserved`).
-/

set_option autoImplicit false

namespace EndlessRunner

open Lib (Machine)

variable {K : Type} [Field K]

namespace World

/-! ## Live entries -/

/-- The entry names an obstacle that is not destroyed. -/
def liveEntry (w : World K) : Option ObstacleId → Bool
  | some o => !(w.obstacles o).pendingKill
  | none => false

theorem liveEntry_some {w : World K} {o : ObstacleId} :
    w.liveEntry (some o) = true ↔ (w.obstacles o).pendingKill = false := by
  simp [liveEntry]

/-- Two worlds with the same road, but for entries of the lists that are not live. -/
structure SameLive (w v : World K) : Prop where
  nextSpawnPoint : v.gameMode.nextSpawnPoint = w.gameMode.nextSpawnPoint
  groundTiles : v.gameMode.groundTiles = w.gameMode.groundTiles
  location : v.groundTilesParent.location = w.groundTilesParent.location
  numTiles : v.numTiles = w.numTiles
  obstacles : v.obstacles = w.obstacles
  numObstacles : v.numObstacles = w.numObstacles
  bare : ∀ t, (v.tiles t).bare = (w.tiles t).bare
  live : ∀ t, (v.tiles t).obstacles.filter w.liveEntry = (w.tiles t).obstacles.filter w.liveEntry

theorem SameLive.of_roadPart {w v : World K} (h : v.roadPart = w.roadPart) : SameLive w v := by
  simp only [roadPart, RoadPart.mk.injEq] at h
  obtain ⟨hpoint, hground, hlocation, htiles, hnum, hobstacles, hmade⟩ := h
  exact ⟨hpoint, hground, hlocation, hnum, hobstacles, hmade, fun t => by rw [htiles], fun t => by rw [htiles]⟩

theorem SameLive.liveEntry_eq {w v : World K} (h : SameLive w v) : v.liveEntry = w.liveEntry := by
  funext e
  cases e with
  | none => rfl
  | some o => simp only [liveEntry, h.obstacles]

theorem SameLive.symm {w v : World K} (h : SameLive w v) : SameLive v w where
  nextSpawnPoint := h.nextSpawnPoint.symm
  groundTiles := h.groundTiles.symm
  location := h.location.symm
  numTiles := h.numTiles.symm
  obstacles := h.obstacles.symm
  numObstacles := h.numObstacles.symm
  bare t := (h.bare t).symm
  live t := by
    rw [h.liveEntry_eq]
    exact (h.live t).symm

theorem SameLive.trans {u w v : World K} (h : SameLive u w) (h' : SameLive w v) : SameLive u v where
  nextSpawnPoint := h'.nextSpawnPoint.trans h.nextSpawnPoint
  groundTiles := h'.groundTiles.trans h.groundTiles
  location := h'.location.trans h.location
  numTiles := h'.numTiles.trans h.numTiles
  obstacles := h'.obstacles.trans h.obstacles
  numObstacles := h'.numObstacles.trans h.numObstacles
  bare t := (h'.bare t).trans (h.bare t)
  live t := by
    have hlive := h'.live t
    rw [h.liveEntry_eq] at hlive
    exact hlive.trans (h.live t)

/-- The lists name the same live obstacles. -/
theorem SameLive.mem_iff {w v : World K} (h : SameLive w v) {o : ObstacleId} (ho : (w.obstacles o).pendingKill = false)
    (t : TileId) : some o ∈ (v.tiles t).obstacles ↔ some o ∈ (w.tiles t).obstacles := by
  have hmem : some o ∈ (v.tiles t).obstacles.filter w.liveEntry ↔
      some o ∈ (w.tiles t).obstacles.filter w.liveEntry := by
    rw [h.live t]
  simpa only [List.mem_filter, liveEntry_some, ho, and_true] using hmem

/-- Lists that agree on the live entries agree on those that still live after some died. -/
theorem filter_eq_of_imp {α : Type} {p q : α → Bool} {xs ys : List α} (hq : ∀ a, q a = true → p a = true)
    (h : xs.filter p = ys.filter p) : xs.filter q = ys.filter q := by
  have hsplit : ∀ zs : List α, zs.filter q = (zs.filter p).filter q := by
    intro zs
    rw [List.filter_filter]
    refine List.filter_congr fun a _ => ?_
    cases ha : q a with
    | false => rfl
    | true => rw [hq a ha]; rfl
  rw [hsplit xs, hsplit ys, h]

/-! ## What happens to the road -/

/-- A collection touches no live entry. -/
theorem sameLive_collectGarbage (w : World K) : SameLive w w.collectGarbage := by
  refine ⟨rfl, rfl, rfl, rfl, rfl, rfl, fun _ => rfl, ?_⟩
  intro t
  show ((w.tiles t).obstacles.map w.collectEntry).filter w.liveEntry = _
  induction (w.tiles t).obstacles with
  | nil => rfl
  | cons e es ih =>
    have hentry : w.collectEntry e = e ∨ w.collectEntry e = none ∧ w.liveEntry e = false := by
      cases e with
      | none => exact .inl rfl
      | some o =>
        cases hkill : (w.obstacles o).pendingKill with
        | false => exact .inl (by simp [collectEntry, hkill])
        | true => exact .inr (by simp [collectEntry, liveEntry, hkill])
    rw [List.map_cons]
    rcases hentry with hsame | ⟨hnone, hdead⟩
    · rw [hsame, List.filter_cons, List.filter_cons, ih]
    · rw [hnone, List.filter_cons_of_neg (by simp [liveEntry]), List.filter_cons_of_neg (by simp [hdead]), ih]

theorem SameLive.destroy {w v : World K} (h : SameLive w v) (o : ObstacleId) :
    SameLive (w.destroy o) (v.destroy o) where
  nextSpawnPoint := h.nextSpawnPoint
  groundTiles := h.groundTiles
  location := h.location
  numTiles := h.numTiles
  obstacles := by
    simp only [World.destroy, modifyObstacle, h.obstacles]
  numObstacles := h.numObstacles
  bare := h.bare
  live t := by
    refine filter_eq_of_imp ?_ (h.live t)
    intro e he
    cases e with
    | none => exact he
    | some p =>
      rw [liveEntry_some] at he ⊢
      by_cases hp : p = o
      · subst hp
        simp [World.destroy, modifyObstacle] at he
      · simpa [World.destroy, modifyObstacle, hp] using he

theorem SameLive.translateGround {w v : World K} (h : SameLive w v) (d : FVector K) :
    SameLive (w.translateGround d) (v.translateGround d) where
  nextSpawnPoint := h.nextSpawnPoint
  groundTiles := h.groundTiles
  location := congrArg (· + d) h.location
  numTiles := h.numTiles
  obstacles := h.obstacles
  numObstacles := h.numObstacles
  bare t := by
    refine GroundTile.congr_bare (f := fun tile => (tile.moveBy d).bare) ?_ (h.bare t)
    intro tile
    by_cases hattached : tile.attached = true
    · rw [GroundTile.moveBy_of_attached hattached, GroundTile.moveBy_of_attached (t := tile.bare) hattached]
      rfl
    · rw [GroundTile.moveBy, GroundTile.moveBy, if_neg hattached,
        if_neg (show ¬ tile.bare.attached = true from hattached)]
      rfl
  live t := by
    show ((v.tiles t).moveBy d).obstacles.filter w.liveEntry = ((w.tiles t).moveBy d).obstacles.filter w.liveEntry
    rw [GroundTile.moveBy_obstacles, GroundTile.moveBy_obstacles]
    exact h.live t

theorem SameLive.withTile {w v : World K} (h : SameLive w v) (c : TileClass K) :
    SameLive (w.withTile c) (v.withTile c) where
  nextSpawnPoint := congrArg (c.attachPoint * ·) h.nextSpawnPoint
  groundTiles := by
    show v.gameMode.groundTiles ++ [some v.numTiles] = w.gameMode.groundTiles ++ [some w.numTiles]
    rw [h.groundTiles, h.numTiles]
  location := h.location
  numTiles := congrArg (· + 1) h.numTiles
  obstacles := h.obstacles
  numObstacles := h.numObstacles
  bare t := by
    by_cases ht : t = w.numTiles
    · subst ht
      have hv := tiles_withTile_self v c
      rw [h.numTiles] at hv
      rw [hv, tiles_withTile_self, h.nextSpawnPoint]
    · rw [tiles_withTile_of_ne w c ht, tiles_withTile_of_ne v c (h.numTiles ▸ ht)]
      exact h.bare t
  live t := by
    rw [withTile_obstacles, withTile_obstacles, h.numTiles]
    split_ifs
    · rfl
    · exact h.live t

theorem SameLive.cleared {w v : World K} (h : SameLive w v) (t : TileId) : SameLive (w.cleared t) (v.cleared t) where
  nextSpawnPoint := h.nextSpawnPoint
  groundTiles := h.groundTiles
  location := h.location
  numTiles := h.numTiles
  obstacles := by
    funext o
    rw [cleared_obstacle, cleared_obstacle, h.obstacles]
    cases hkill : (w.obstacles o).pendingKill with
    | false => simp only [h.mem_iff hkill]
    | true =>
      -- what is destroyed already stays as it is, listed or not
      have hsame : { w.obstacles o with pendingKill := true } = w.obstacles o := by
        rw [← hkill]
      rw [hsame, ite_self, ite_self]
  numObstacles := h.numObstacles
  bare s := by
    rw [(onlyObstacles_cleared v t).bare, (onlyObstacles_cleared w t).bare]
    exact h.bare s
  live s := by
    have himp : ∀ e, (w.cleared t).liveEntry e = true → w.liveEntry e = true := by
      intro e he
      cases e with
      | none => exact he
      | some o =>
        rw [liveEntry_some] at he ⊢
        rw [cleared_obstacle] at he
        split at he
        · cases he
        · exact he
    by_cases hs : s = t
    · subst hs
      have hnull : ∀ u : World K, ((u.cleared s).tiles s).obstacles.filter (w.cleared s).liveEntry = [] := by
        intro u
        rw [cleared_obstacles, List.filter_filter, List.filter_eq_nil_iff]
        intro e _ he
        cases e <;> simp [liveEntry] at he
      rw [hnull, hnull]
    · rw [tiles_cleared_of_ne w hs, tiles_cleared_of_ne v hs]
      exact filter_eq_of_imp himp (h.live s)

theorem SameLive.attachTransform {w v : World K} (h : SameLive w v) (t : TileId) :
    (v.tiles t).attachTransform = (w.tiles t).attachTransform :=
  GroundTile.congr_bare (f := GroundTile.attachTransform) (fun _ => rfl) (h.bare t)

theorem SameLive.toEnd {w v : World K} (h : SameLive w v) (t last : TileId) :
    SameLive (w.toEnd t last) (v.toEnd t last) where
  nextSpawnPoint := h.nextSpawnPoint
  groundTiles := by
    show TArray.remove v.gameMode.groundTiles (some t) ++ [some t] = _
    rw [h.groundTiles]
    rfl
  location := h.location
  numTiles := h.numTiles
  obstacles := h.obstacles
  numObstacles := h.numObstacles
  bare s := by
    by_cases hs : s = t
    · subst hs
      rw [tiles_toEnd_self, tiles_toEnd_self, h.attachTransform]
      exact GroundTile.congr_bare (f := fun t => (t.setActorLocation _).bare) (fun _ => rfl) (h.bare s)
    · rw [tiles_toEnd_of_ne w last hs, tiles_toEnd_of_ne v last hs]
      exact h.bare s
  live s := by
    rw [toEnd_obstacles, toEnd_obstacles]
    exact h.live s

/-- The lists name obstacles that were spawned. -/
def Named (w : World K) : Prop := ∀ t o, some o ∈ (w.tiles t).obstacles → o < w.numObstacles

theorem Kept.named {w : World K} (h : Kept w) : w.Named := fun t o ho => (h.sound.entry t o ho).1

theorem Named.withObstacle {w : World K} (h : w.Named) (t : TileId) (l : Lane) : (w.withObstacle t l).Named := by
  intro s o ho
  have hmem : some o ∈ (w.shelves.put t l).entries s := shelves_withObstacle w t l ▸ ho
  rw [Lib.Shelves.entries_put] at hmem
  rcases List.mem_append.mp hmem with hold | hnew
  · exact (h s o hold).trans (Nat.lt_succ_self _)
  · split_ifs at hnew
    · cases List.mem_singleton.mp hnew
      exact Nat.lt_succ_self _
    · exact absurd hnew List.not_mem_nil

/-- A new obstacle leaves the entries as live as they were: none names it yet. -/
theorem filter_live_withObstacle {w v : World K} (hv : v.Named) (hmade : v.numObstacles = w.numObstacles)
    (t s : TileId) (l : Lane) :
    ((v.withObstacle t l).tiles s).obstacles.filter (w.withObstacle t l).liveEntry =
      (v.tiles s).obstacles.filter w.liveEntry ++ if s = t then [some w.numObstacles] else [] := by
  have hlist : ((v.withObstacle t l).tiles s).obstacles =
      (v.tiles s).obstacles ++ if s = t then [some w.numObstacles] else [] := by
    have hentries := congrFun (congrArg Lib.Shelves.entries (shelves_withObstacle v t l)) s
    rw [Lib.Shelves.entries_put] at hentries
    rw [← hmade]
    exact hentries
  have hold : ∀ e ∈ (v.tiles s).obstacles, (w.withObstacle t l).liveEntry e = w.liveEntry e := by
    intro e he
    cases e with
    | none => rfl
    | some o =>
      have hne : o ≠ w.numObstacles := (hmade ▸ hv s o he).ne
      simp only [liveEntry, withObstacle, Function.update_of_ne hne]
  have hnew : (w.withObstacle t l).liveEntry (some w.numObstacles) = true := by
    simp [liveEntry, withObstacle]
  rw [hlist, List.filter_append, List.filter_congr hold]
  split_ifs
  · rw [List.filter_cons_of_pos hnew, List.filter_nil]
  · rfl

theorem SameLive.withObstacle {w v : World K} (h : SameLive w v) (hw : w.Named) (hv : v.Named) (t : TileId)
    (l : Lane) : SameLive (w.withObstacle t l) (v.withObstacle t l) where
  nextSpawnPoint := h.nextSpawnPoint
  groundTiles := h.groundTiles
  location := h.location
  numTiles := h.numTiles
  obstacles := by
    have hlane : (v.tiles t).laneTransform l = (w.tiles t).laneTransform l :=
      GroundTile.congr_bare (f := fun tile => tile.laneTransform l) (fun _ => rfl) (h.bare t)
    simp only [World.withObstacle, h.obstacles, h.numObstacles, hlane]
  numObstacles := congrArg (· + 1) h.numObstacles
  bare s := by
    rw [(onlyObstacles_withObstacle v t l).bare, (onlyObstacles_withObstacle w t l).bare]
    exact h.bare s
  live s := by
    rw [filter_live_withObstacle hv h.numObstacles, filter_live_withObstacle hw rfl, h.live s]

section Ordered

variable [LinearOrder K]

theorem Named.withDraw {w : World K} (h : w.Named) (d : ObstacleDraw K) (t : TileId) (l : Lane) :
    (w.withDraw d t l).Named := by
  unfold World.withDraw
  split
  · exact h.withObstacle t l
  · exact h

theorem SameLive.withDraw {w v : World K} (h : SameLive w v) (hw : w.Named) (hv : v.Named) (d : ObstacleDraw K)
    (t : TileId) (l : Lane) : SameLive (w.withDraw d t l) (v.withDraw d t l) := by
  unfold World.withDraw
  split
  · exact h.withObstacle hw hv t l
  · exact h

theorem SameLive.recycled {w v : World K} (h : SameLive w v) (hw : Kept w) (hv : Kept v) {t : TileId}
    (ht : t < w.numTiles) (left right : ObstacleDraw K) (last : TileId) :
    SameLive (w.recycled left right t last) (v.recycled left right t last) := by
  have hw' : ((w.cleared t).toEnd t last).Named := ((hw.cleared ht).toEnd ht last).named
  have ht' : t < v.numTiles := h.numTiles ▸ ht
  have hv' : ((v.cleared t).toEnd t last).Named := ((hv.cleared ht').toEnd ht' last).named
  have hend := (h.cleared t).toEnd t last
  exact (hend.withDraw hw' hv' left t .left).withDraw (hw'.withDraw left t .left) (hv'.withDraw left t .left) right t
    .right

/-! ## What happens to the game -/

/-- Two worlds that differ in nothing but list entries that are not live. -/
structure SameButEntries (w v : World K) : Prop where
  others : ∀ p, p ≠ Part.road → v.view p = w.view p
  road : SameLive w v

omit [LinearOrder K] in
theorem SameButEntries.symm {w v : World K} (h : SameButEntries w v) : SameButEntries v w :=
  ⟨fun p hp => (h.others p hp).symm, h.road.symm⟩

omit [LinearOrder K] in
theorem SameButEntries.trans {u w v : World K} (h : SameButEntries u w) (h' : SameButEntries w v) :
    SameButEntries u v :=
  ⟨fun p hp => (h'.others p hp).trans (h.others p hp), h.road.trans h'.road⟩

omit [LinearOrder K] in
theorem sameButEntries_collectGarbage (w : World K) : SameButEntries w w.collectGarbage :=
  ⟨fun _ hp => (onlyObstacles_collectGarbage w).onlyTiles.view_eq hp, sameLive_collectGarbage w⟩

omit [Field K] [LinearOrder K] in
/-- The road is read only to compute the road. -/
theorem reads_ne_road {e : Event K} {p q : Part} (hp : p ≠ .road) (hq : q ∈ e.reads p) : q ≠ .road := by
  rintro rfl
  cases e <;> cases p <;> simp [Event.reads] at hq hp

/-- Recycling reads the list of the tiles, and no other event reads the road. -/
theorem exists_step_of_sameButEntries {w w' v : World K} {e : Event K} (h : SameButEntries w v)
    (hs : (game K).Step w e w') : ∃ v', (game K).Step v e v' := by
  by_cases hneeds : Part.road ∈ e.needs
  · cases e with
    | recycle t left right =>
      have hstep : w.step (.recycle t left right) = .ok w' := hs.2
      have hen : some t ∈ w.gameMode.groundTiles := hs.1
      obtain ⟨hleft, hright, last, hlast, _⟩ := recycleTile_eq_ok.mp hstep
      rw [← h.road.groundTiles] at hen hlast
      exact ⟨_, hen, recycleTile_eq_ok.mpr ⟨hleft, hright, last, hlast, rfl⟩⟩
    | _ => simp [Event.needs] at hneeds
  · refine exists_step_of_view hs ?_
    intro p hp
    exact h.others p (ne_of_mem_of_not_mem hp hneeds)

/-- **An event leads from worlds that differ in such entries to worlds that do.** -/
theorem SameButEntries.step {w w' v v' : World K} {e : Event K} (h : SameButEntries w v) (hw : Kept w) (hv : Kept v)
    (hs : (game K).Step w e w') (hs' : (game K).Step v e v') : SameButEntries w' v' := by
  refine ⟨?_, ?_⟩
  · intro p hp
    by_cases hwrites : p ∈ e.writes
    · exact view_step_congr hs hs' hwrites fun q hq => h.others q (reads_ne_road hp hq)
    · rw [view_step hs' hwrites, view_step hs hwrites]
      exact h.others p hp
  · by_cases hwrites : Part.road ∈ e.writes
    · have hstep : w.step e = .ok w' := hs.2
      have hstep' : v.step e = .ok v' := hs'.2
      cases e with
      | physics dt =>
        cases hstep
        cases hstep'
        have hvelocity : v.groundTilesParent.physicsLinearVelocity = w.groundTilesParent.physicsLinearVelocity :=
          h.others .velocity (by decide)
        rw [physics, physics, hvelocity]
        exact h.road.translateGround _
      | translate d =>
        cases hstep
        cases hstep'
        exact h.road.translateGround d
      | spawnGroundTile spawned =>
        obtain ⟨c, hc, rfl⟩ := step_spawnGroundTile hstep
        obtain ⟨c', hc', rfl⟩ := step_spawnGroundTile hstep'
        have hclass := congrArg ConfigPart.groundTileClass (h.others .config (by decide))
        cases (hc'.symm.trans hclass).trans hc
        exact h.road.withTile c
      | recycle t left right =>
        obtain ⟨_, _, last, hlast, rfl⟩ := recycleTile_eq_ok.mp hstep
        obtain ⟨_, _, last', hlast', rfl⟩ := recycleTile_eq_ok.mp hstep'
        rw [h.road.groundTiles] at hlast'
        cases hlast.symm.trans hlast'
        exact h.road.recycled hw hv (hw.pool t hs.1) left right last
      | hit o other =>
        rcases onCollisionBoxOverlap_eq_ok.mp hstep with ⟨hmiss, rfl⟩ | ⟨hmeets, rfl⟩ <;>
          rcases onCollisionBoxOverlap_eq_ok.mp hstep' with ⟨hmiss', rfl⟩ | ⟨hmeets', rfl⟩
        · exact h.road
        · simp [hmeets'] at hmiss
        · simp [hmeets] at hmiss'
        · have hroad : ∀ u : World K, SameLive (u.destroy o) (u.struck o) := by
            intro u
            obtain ⟨_, _, _, _, hu⟩ := struck_frame u o
            rw [hu]
            exact .of_roadPart rfl
          exact ((hroad w).symm.trans (h.road.destroy o)).trans (hroad v)
      | collectGarbage =>
        cases hstep
        cases hstep'
        exact ((sameLive_collectGarbage w).symm.trans h.road).trans (sameLive_collectGarbage v)
      | _ => simp [Event.writes] at hwrites
    · have hroad : SameLive w w' := .of_roadPart (view_step hs hwrites)
      have hroad' : SameLive v v' := .of_roadPart (view_step hs' hwrites)
      exact (hroad.symm.trans h.road).trans hroad'

end Ordered

end World

/-- The event is not a garbage collection. -/
def Event.acts : Event K → Bool
  | .collectGarbage => false
  | _ => true

namespace World

omit [Field K] in
theorem eq_collectGarbage_of_acts {e : Event K} (he : e.acts = false) : e = .collectGarbage := by
  cases e with
  | collectGarbage => rfl
  | _ => cases he

variable [LinearOrder K]

/-- Taking the collections out of a run. -/
theorem SameButEntries.run_acts {w u v : World K} {es : List (Event K)} (hr : (game K).Run w es u)
    (h : SameButEntries w v) (hw : Kept w) (hv : Kept v) :
    ∃ x, (game K).Run v (es.filter Event.acts) x ∧ SameButEntries u x ∧ Kept u ∧ Kept x := by
  refine hr.erase (R := fun a b => SameButEntries a b ∧ Kept a ∧ Kept b) ?_ ?_ ⟨h, hw, hv⟩
  · rintro s e t a _ hst ⟨hsame, hs, ha⟩
    obtain ⟨b, hb⟩ := exists_step_of_sameButEntries hsame hst
    exact ⟨b, hb, hsame.step hs ha hst hb, hs.step hst, ha.step hb⟩
  · rintro s e t a he hst ⟨hsame, hs, ha⟩
    cases eq_collectGarbage_of_acts he
    cases hst.2
    exact ⟨(sameButEntries_collectGarbage s).symm.trans hsame, hs.collectGarbage, ha⟩

/-- Putting collections into a run. -/
theorem SameButEntries.run_of_acts {w u v : World K} {es : List (Event K)}
    (hr : (game K).Run v (es.filter Event.acts) u) (h : SameButEntries w v) (hw : Kept w) (hv : Kept v) :
    ∃ x, (game K).Run w es x ∧ SameButEntries x u := by
  have hkeep : ∀ s a e b, e.acts = true → (game K).Step a e b → SameButEntries s a ∧ Kept s ∧ Kept a →
      ∃ t, (game K).Step s e t ∧ SameButEntries t b ∧ Kept t ∧ Kept b := by
    rintro s a e b _ hst ⟨hsame, hs, ha⟩
    obtain ⟨t, ht⟩ := exists_step_of_sameButEntries hsame.symm hst
    exact ⟨t, ht, hsame.step hs ha ht hst, hs.step ht, ha.step hst⟩
  have hdrop : ∀ s a e, e ∈ es → e.acts = false → SameButEntries s a ∧ Kept s ∧ Kept a →
      ∃ t, (game K).Step s e t ∧ SameButEntries t a ∧ Kept t ∧ Kept a := by
    rintro s a e _ he ⟨hsame, hs, ha⟩
    cases eq_collectGarbage_of_acts he
    exact ⟨s.collectGarbage, ⟨trivial, rfl⟩, (sameButEntries_collectGarbage s).symm.trans hsame, hs.collectGarbage,
      ha⟩
  obtain ⟨x, hx, hsame, _⟩ := Machine.Run.restore hkeep hdrop hr ⟨h, hw, hv⟩
  exact ⟨x, hx, hsame⟩

/-- **Whether and when garbage is collected cannot be observed.** Of two sequences of events that differ in collections
alone, after `BeginPlay`, one is a run when the other is, and they lead to the same world but for entries of the
obstacle lists that are null or name a destroyed obstacle. -/
theorem collections_unobserved [IsStrictOrderedRing K] {w w₀ u : World K} {a : BeginPlayAnswers K}
    {es fs : List (Event K)} (init : w.Initial) (begun : w.beginPlay a = .ok w₀)
    (same : es.filter Event.acts = fs.filter Event.acts) (run : (game K).Run w₀ es u) :
    ∃ v, (game K).Run w₀ fs v ∧ SameButEntries u v := by
  have hkept : Kept w₀ := init.kept begun
  have hrefl : SameButEntries w₀ w₀ := ⟨fun _ _ => rfl, .of_roadPart rfl⟩
  obtain ⟨x, hx, hux, _⟩ := hrefl.run_acts run hkept hkept
  rw [same] at hx
  obtain ⟨v, hv, hvx⟩ := hrefl.run_of_acts hx hkept hkept
  exact ⟨v, hv, hux.trans hvx.symm⟩

/-- The obstacle that was hit is collected before its tile is recycled, or after. -/
theorem collections_unobserved_staleRecycle :
    ∃ u v, (game ℚ).Run fullRoad staleRecycle u ∧
      (game ℚ).Run fullRoad [.hit 0 .runner, .recycle 1 ⟨1, true⟩ ⟨1, true⟩, .collectGarbage] v ∧
      SameButEntries u v := by
  obtain ⟨u, hu, _⟩ := run_staleRecycle
  have hacts : staleRecycle.filter Event.acts =
      [.hit 0 .runner, .recycle 1 ⟨1, true⟩ ⟨1, true⟩, .collectGarbage].filter Event.acts := rfl
  obtain ⟨v, hv, hsame⟩ := collections_unobserved (World.fresh_initial _ 1) beginPlay_fullRoad hacts hu
  exact ⟨u, v, hu, hv, hsame⟩

end World

end EndlessRunner
