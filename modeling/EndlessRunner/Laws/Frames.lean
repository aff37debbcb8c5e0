import EndlessRunner.Laws.Functions

/-!
# Frames, and the rule of `BeginPlay`

`OnlyObstacles` says that two worlds differ in nothing but obstacle actors and the tiles' lists of them:
clearing, filling and garbage collection are of that kind. So `RecycleTile` moves the tile to the end and
otherwise only touches obstacles (`recycled_onlyObstacles`). `OnlyTiles` allows the tiles, their list and the
spawn point to differ as well: it is the frame of `RecycleTile`, of `SpawnGroundTile` and of the start-up loop.

`obstacleStep_cases` lists what a step can do to tiles and obstacles, and `roadStep_cases` forgets the obstacles.

`beginPlay_induction` is the rule for what `BeginPlay` establishes: the opened world has it, and each round
of the start-up loop keeps it.
-/

set_option autoImplicit false

namespace EndlessRunner

open Lib (Machine Timer)

variable {K : Type} [Field K]

/-- A tile without its obstacle list. -/
def GroundTile.bare (t : GroundTile K) : GroundTile K := { t with obstacles := [] }

/-- What does not read the obstacle list is the same for tiles with the same bare form. -/
theorem GroundTile.congr_bare {α : Type*} {f : GroundTile K → α} (hf : ∀ t, f t.bare = f t)
    {t u : GroundTile K} (h : t.bare = u.bare) : f t = f u := by
  rw [← hf t, h, hf u]

namespace World

/-- Two worlds that differ only in obstacle actors and in the tiles' lists of them. -/
structure OnlyObstacles (w w' : World K) : Prop where
  gameMode : w'.gameMode = w.gameMode
  character : w'.character = w.character
  groundTilesParent : w'.groundTilesParent = w.groundTilesParent
  numTiles : w'.numTiles = w.numTiles
  time : w'.time = w.time
  timers : w'.timers = w.timers
  bare : ∀ s, (w'.tiles s).bare = (w.tiles s).bare

theorem OnlyObstacles.refl (w : World K) : OnlyObstacles w w :=
  ⟨rfl, rfl, rfl, rfl, rfl, rfl, fun _ => rfl⟩

theorem OnlyObstacles.trans {u v w : World K} (h : OnlyObstacles u v) (h' : OnlyObstacles v w) :
    OnlyObstacles u w :=
  ⟨h'.gameMode.trans h.gameMode, h'.character.trans h.character,
    h'.groundTilesParent.trans h.groundTilesParent, h'.numTiles.trans h.numTiles, h'.time.trans h.time,
    h'.timers.trans h.timers, fun s => (h'.bare s).trans (h.bare s)⟩

theorem OnlyObstacles.attachTransform {w w' : World K} (h : OnlyObstacles w w') (s : TileId) :
    (w'.tiles s).attachTransform = (w.tiles s).attachTransform :=
  GroundTile.congr_bare (f := GroundTile.attachTransform) (fun _ => rfl) (h.bare s)

theorem OnlyObstacles.sceneComponent {w w' : World K} (h : OnlyObstacles w w') (s : TileId) :
    (w'.tiles s).sceneComponent = (w.tiles s).sceneComponent :=
  GroundTile.congr_bare (f := fun t => t.sceneComponent) (fun _ => rfl) (h.bare s)

theorem OnlyObstacles.location {w w' : World K} (h : OnlyObstacles w w') (s : TileId) :
    (w'.tiles s).location = (w.tiles s).location :=
  congrArg FTransform.translation (h.sceneComponent s)

theorem OnlyObstacles.attached {w w' : World K} (h : OnlyObstacles w w') (s : TileId) :
    (w'.tiles s).attached = (w.tiles s).attached :=
  GroundTile.congr_bare (f := GroundTile.attached) (fun _ => rfl) (h.bare s)

/-- A tile whose obstacle list alone is replaced keeps its bare form. -/
theorem update_obstacles_bare (tiles : TileId → GroundTile K) (t s : TileId)
    (entries : List (Option ObstacleId)) :
    (Function.update tiles t { tiles t with obstacles := entries } s).bare = (tiles s).bare := by
  by_cases h : s = t
  · subst h
    rw [Function.update_self]
    rfl
  · rw [Function.update_of_ne h]

theorem onlyObstacles_cleared (w : World K) (t : TileId) : OnlyObstacles w (w.cleared t) :=
  ⟨rfl, rfl, rfl, rfl, rfl, rfl, fun s => update_obstacles_bare w.tiles t s _⟩

theorem onlyObstacles_withObstacle (w : World K) (t : TileId) (l : Lane) :
    OnlyObstacles w (w.withObstacle t l) :=
  ⟨rfl, rfl, rfl, rfl, rfl, rfl, fun s => update_obstacles_bare w.tiles t s _⟩

theorem onlyObstacles_destroy (w : World K) (o : ObstacleId) : OnlyObstacles w (w.destroy o) :=
  ⟨rfl, rfl, rfl, rfl, rfl, rfl, fun _ => rfl⟩

theorem onlyObstacles_collectGarbage (w : World K) : OnlyObstacles w w.collectGarbage :=
  ⟨rfl, rfl, rfl, rfl, rfl, rfl, fun _ => rfl⟩

/-- Moving a tile to the end respects the relation: it reads no obstacle. -/
theorem OnlyObstacles.toEnd {w w' : World K} (h : OnlyObstacles w w') (t last : TileId) :
    OnlyObstacles (w.toEnd t last) (w'.toEnd t last) where
  gameMode := by
    simp only [World.toEnd, h.gameMode]
  character := h.character
  groundTilesParent := h.groundTilesParent
  numTiles := h.numTiles
  time := h.time
  timers := h.timers
  bare s := by
    by_cases hs : s = t
    · subst hs
      rw [tiles_toEnd_self, tiles_toEnd_self, h.attachTransform]
      exact GroundTile.congr_bare (f := fun t => (t.setActorLocation _).bare) (fun _ => rfl) (h.bare s)
    · rw [tiles_toEnd_of_ne w last hs, tiles_toEnd_of_ne w' last hs]
      exact h.bare s

/-- Two worlds that differ only in tiles and obstacles, the list of the tiles and the spawn point. -/
structure OnlyTiles (w w' : World K) : Prop where
  gameMode : ∃ point tiles,
    w'.gameMode = { w.gameMode with nextSpawnPoint := point, groundTiles := tiles }
  character : w'.character = w.character
  groundTilesParent : w'.groundTilesParent = w.groundTilesParent
  time : w'.time = w.time
  timers : w'.timers = w.timers

theorem OnlyTiles.trans {u v w : World K} (h : OnlyTiles u v) (h' : OnlyTiles v w) : OnlyTiles u w where
  gameMode := by
    obtain ⟨_, _, hv⟩ := h.gameMode
    obtain ⟨point, tiles, hw⟩ := h'.gameMode
    exact ⟨point, tiles, by rw [hw, hv]⟩
  character := h'.character.trans h.character
  groundTilesParent := h'.groundTilesParent.trans h.groundTilesParent
  time := h'.time.trans h.time
  timers := h'.timers.trans h.timers

theorem OnlyObstacles.onlyTiles {w w' : World K} (h : OnlyObstacles w w') : OnlyTiles w w' :=
  ⟨⟨_, _, h.gameMode⟩, h.character, h.groundTilesParent, h.time, h.timers⟩

theorem onlyTiles_toEnd (w : World K) (t last : TileId) : OnlyTiles w (w.toEnd t last) :=
  ⟨⟨_, _, rfl⟩, rfl, rfl, rfl, rfl⟩

theorem onlyTiles_withTile (w : World K) (c : TileClass K) : OnlyTiles w (w.withTile c) :=
  ⟨⟨_, _, rfl⟩, rfl, rfl, rfl, rfl⟩

section Ordered

variable [LinearOrder K]

theorem onlyObstacles_withDraw (w : World K) (d : ObstacleDraw K) (t : TileId) (l : Lane) :
    OnlyObstacles w (w.withDraw d t l) := by
  unfold withDraw
  split
  · exact onlyObstacles_withObstacle w t l
  · exact .refl w

theorem onlyObstacles_withDraws (w : World K) (left right : ObstacleDraw K) (t : TileId) :
    OnlyObstacles w (w.withDraws left right t) :=
  (onlyObstacles_withDraw w left t .left).trans (onlyObstacles_withDraw _ right t .right)

/-- **`RecycleTile` moves the tile to the end, and otherwise only touches obstacles.** -/
theorem recycled_onlyObstacles (w : World K) (left right : ObstacleDraw K) (t last : TileId) :
    OnlyObstacles (w.toEnd t last) (w.recycled left right t last) :=
  ((onlyObstacles_cleared w t).toEnd t last).trans (onlyObstacles_withDraws _ left right t)

/-- A round of the start-up loop adds a tile, and otherwise only touches obstacles. -/
theorem withRound_onlyObstacles (w : World K) (c : TileClass K) (d : TileDraw K) :
    OnlyObstacles (w.withTile c) (w.withRound c d) :=
  onlyObstacles_withDraws _ _ _ _

theorem recycled_onlyTiles (w : World K) (left right : ObstacleDraw K) (t last : TileId) :
    OnlyTiles w (w.recycled left right t last) :=
  (onlyTiles_toEnd w t last).trans (recycled_onlyObstacles w left right t last).onlyTiles

theorem withRound_onlyTiles (w : World K) (c : TileClass K) (d : TileDraw K) :
    OnlyTiles w (w.withRound c d) :=
  (onlyTiles_withTile w c).trans (withRound_onlyObstacles w c d).onlyTiles

/-! ## Events that keep the road -/

/-- The ground parent has no velocity across the lanes, nor upwards. -/
def AlongX (w : World K) : Prop :=
  w.groundTilesParent.physicsLinearVelocity.y = 0 ∧ w.groundTilesParent.physicsLinearVelocity.z = 0

/-- Two worlds with the same road: the tiles, the obstacles, and what the game mode knows of them. The ground
parent's velocity may differ, along the road. -/
structure SameRoad (w w' : World K) : Prop where
  tiles : w'.tiles = w.tiles
  numTiles : w'.numTiles = w.numTiles
  obstacles : w'.obstacles = w.obstacles
  numObstacles : w'.numObstacles = w.numObstacles
  groundTileClass : w'.gameMode.groundTileClass = w.gameMode.groundTileClass
  groundTiles : w'.gameMode.groundTiles = w.gameMode.groundTiles
  nextSpawnPoint : w'.gameMode.nextSpawnPoint = w.gameMode.nextSpawnPoint
  laneSwitchValues : w'.gameMode.laneSwitchValues = w.gameMode.laneSwitchValues
  alongX : AlongX w → AlongX w'

omit [LinearOrder K] in
theorem SameRoad.refl (w : World K) : SameRoad w w := ⟨rfl, rfl, rfl, rfl, rfl, rfl, rfl, rfl, id⟩

omit [LinearOrder K] in
theorem SameRoad.trans {u v w : World K} (h : SameRoad u v) (h' : SameRoad v w) : SameRoad u w :=
  ⟨h'.tiles.trans h.tiles, h'.numTiles.trans h.numTiles, h'.obstacles.trans h.obstacles,
    h'.numObstacles.trans h.numObstacles, h'.groundTileClass.trans h.groundTileClass,
    h'.groundTiles.trans h.groundTiles, h'.nextSpawnPoint.trans h.nextSpawnPoint,
    h'.laneSwitchValues.trans h.laneSwitchValues, h'.alongX ∘ h.alongX⟩

theorem sameRoad_tick {w w' : World K} {dt : K} (h : w.tick dt = .ok w') : SameRoad w w' := by
  rcases tick_cases h with ⟨_, rfl⟩ | ⟨_, y, _, rfl | rfl⟩ <;>
    exact ⟨rfl, rfl, rfl, rfl, rfl, rfl, rfl, rfl, id⟩

omit [LinearOrder K] in
theorem sameRoad_lockLanes (w : World K) : SameRoad w w.lockLanes := by
  obtain ⟨can, hlock⟩ := lockLanes_frame w
  rw [hlock]
  exact ⟨rfl, rfl, rfl, rfl, rfl, rfl, rfl, rfl, id⟩

omit [LinearOrder K] in
theorem sameRoad_switchToLane {w w' : World K} {i : ℤ} (h : w.switchToLane i = .ok w') : SameRoad w w' := by
  rw [switchToLane_eq_ok h]
  exact sameRoad_lockLanes w

theorem sameRoad_move {w w' : World K} {v : FVector2D K} (h : w.move v = .ok w') : SameRoad w w' := by
  rcases move_cases h with rfl | rfl
  · exact .refl _
  · have hsteered : SameRoad w (w.steered v) := ⟨rfl, rfl, rfl, rfl, rfl, rfl, rfl, rfl, id⟩
    exact hsteered.trans (sameRoad_lockLanes _)

theorem sameRoad_togglePlayerInvincibility (w : World K) (value : Bool) :
    SameRoad w (w.togglePlayerInvincibility value) := by
  obtain ⟨timers, flag, hcall⟩ := togglePlayerInvincibility_frame w value
  rw [hcall]
  exact ⟨rfl, rfl, rfl, rfl, rfl, rfl, rfl, rfl, id⟩

omit [LinearOrder K] in
theorem sameRoad_fireTimer {w w' : World K} {i : ℕ} (h : w.fireTimer i = .ok w') : SameRoad w w' := by
  rcases fireTimer_eq_ok h with hsame | ⟨τ, _, rfl⟩
  · rw [hsame]
    exact .refl w
  · unfold fired ran
    split <;> exact ⟨rfl, rfl, rfl, rfl, rfl, rfl, rfl, rfl, id⟩

end Ordered

end World

/-- The events that touch neither a tile nor an obstacle. -/
def Event.KeepsRoad : Event K → Prop
  | .tick _ | .groundTick | .move _ | .switchToLane _ | .toggleInvincibility _ | .advance _ | .fire _ => True
  | .physics _ | .translate _ | .spawnGroundTile _ | .recycle _ _ _ | .hit _ _ | .collectGarbage => False

namespace World

section Ordered

variable [LinearOrder K]

theorem sameRoad_step {w w' : World K} {e : Event K} (hs : (game K).Step w e w') (he : e.KeepsRoad) :
    SameRoad w w' := by
  have h : w.step e = .ok w' := hs.2
  cases e with
  | tick dt => exact sameRoad_tick h
  | groundTick =>
    cases h
    refine ⟨rfl, rfl, rfl, rfl, rfl, rfl, rfl, rfl, fun _ => ?_⟩
    simp [AlongX, groundTick]
  | move v => exact sameRoad_move h
  | switchToLane i => exact sameRoad_switchToLane h
  | toggleInvincibility value =>
    cases h
    exact sameRoad_togglePlayerInvincibility w value
  | advance d =>
    cases h
    exact ⟨rfl, rfl, rfl, rfl, rfl, rfl, rfl, rfl, id⟩
  | fire i => exact sameRoad_fireTimer h
  | _ => exact he.elim

/-- A hit destroys the obstacle, or nothing happens to the road. -/
theorem sameRoad_hit {w w' : World K} {o : ObstacleId} {other : OtherActor}
    (h : w.onCollisionBoxOverlap o other = .ok w') :
    w' = w ∨ ∃ v, SameRoad w v ∧ w' = v.destroy o := by
  rcases onCollisionBoxOverlap_eq_ok.mp h with ⟨_, rfl⟩ | ⟨_, rfl⟩
  · exact .inl rfl
  · obtain ⟨lives, timers, flag, _, hstruck⟩ := struck_frame w o
    refine .inr ⟨_, ?_, hstruck⟩
    exact ⟨rfl, rfl, rfl, rfl, rfl, rfl, rfl, rfl, id⟩

/-- `SpawnGroundTile` succeeds when there is a tile class and the tile is spawned. -/
theorem step_spawnGroundTile {w w' : World K} {spawned : Bool}
    (h : w.step (.spawnGroundTile spawned) = .ok w') :
    ∃ c, w.gameMode.groundTileClass = some c ∧ w' = w.withTile c := by
  simp only [step, spawnGroundTile_eq] at h
  rcases hc : w.gameMode.groundTileClass with _ | c
  · rw [hc] at h
    cases h
  · rw [hc] at h
    cases spawned with
    | false => cases h
    | true =>
      cases h
      exact ⟨c, rfl, rfl⟩

/-- A tile that is spawned is added. -/
theorem step_spawnGroundTile_of_class {w : World K} {c : TileClass K} (hc : w.gameMode.groundTileClass = some c) :
    w.step (.spawnGroundTile true) = .ok (w.withTile c) := by
  simp only [step, spawnGroundTile_eq, hc]
  rfl

end Ordered

end World

/-- The events that move a tile or add one. -/
def Event.MovesTiles : Event K → Prop
  | .physics _ | .translate _ | .spawnGroundTile _ | .recycle _ _ _ => True
  | _ => False

namespace World

section Ordered

variable [LinearOrder K]

/-- **What a step can do to the tiles and the obstacles**: nothing, or an obstacle is destroyed, or garbage is
collected, or the ground parent moves with its tiles, or a tile is added, or one is recycled. -/
theorem obstacleStep_cases {w w' : World K} {e : Event K} (hs : (game K).Step w e w') :
    (¬ e.MovesTiles ∧ SameRoad w w') ∨
    (¬ e.MovesTiles ∧ ∃ v o, SameRoad w v ∧ w' = v.destroy o) ∨
    (e = .collectGarbage ∧ w' = w.collectGarbage) ∨
    (∃ d, (e = .translate d ∨ ∃ dt, e = .physics dt ∧ d = dt • w.groundTilesParent.physicsLinearVelocity) ∧
      w' = w.translateGround d) ∨
    (∃ spawned c, e = .spawnGroundTile spawned ∧ w.gameMode.groundTileClass = some c ∧ w' = w.withTile c) ∨
    (∃ t left right last, e = .recycle t left right ∧ some t ∈ w.gameMode.groundTiles ∧
      w.gameMode.groundTiles.getLast? = some (some last) ∧ w' = w.recycled left right t last) := by
  have hstep : w.step e = .ok w' := hs.2
  cases e with
  | physics dt =>
    cases hstep
    exact .inr (.inr (.inr (.inl ⟨_, .inr ⟨dt, rfl, rfl⟩, rfl⟩)))
  | translate d =>
    cases hstep
    exact .inr (.inr (.inr (.inl ⟨d, .inl rfl, rfl⟩)))
  | spawnGroundTile spawned =>
    obtain ⟨c, hc, rfl⟩ := step_spawnGroundTile hstep
    exact .inr (.inr (.inr (.inr (.inl ⟨spawned, c, rfl, hc, rfl⟩))))
  | recycle t left right =>
    have hen : some t ∈ w.gameMode.groundTiles := hs.1
    obtain ⟨_, _, last, hlast, rfl⟩ := recycleTile_eq_ok.mp hstep
    exact .inr (.inr (.inr (.inr (.inr ⟨t, left, right, last, rfl, hen, hlast, rfl⟩))))
  | hit o other =>
    rcases sameRoad_hit hstep with rfl | ⟨v, hv, rfl⟩
    · exact .inl ⟨id, .refl w'⟩
    · exact .inr (.inl ⟨id, v, o, hv, rfl⟩)
  | collectGarbage =>
    cases hstep
    exact .inr (.inr (.inl ⟨rfl, rfl⟩))
  | _ => exact .inl ⟨id, sameRoad_step hs trivial⟩

/-- **What a step can do to the tiles**, whatever it does to the obstacles: nothing, or the ground parent moves with
them, or one is added, or one goes to the end. -/
theorem roadStep_cases {w w' : World K} {e : Event K} (hs : (game K).Step w e w') :
    (¬ e.MovesTiles ∧ ∃ v, SameRoad w v ∧ OnlyObstacles v w') ∨
    (∃ d, (e = .translate d ∨ ∃ dt, e = .physics dt ∧ d = dt • w.groundTilesParent.physicsLinearVelocity) ∧
      w' = w.translateGround d) ∨
    (∃ spawned c, e = .spawnGroundTile spawned ∧ w.gameMode.groundTileClass = some c ∧ w' = w.withTile c) ∨
    (∃ t left right last, e = .recycle t left right ∧ some t ∈ w.gameMode.groundTiles ∧
      w.gameMode.groundTiles.getLast? = some (some last) ∧ OnlyObstacles (w.toEnd t last) w') := by
  rcases obstacleStep_cases hs with ⟨hmoves, hsame⟩ | ⟨hmoves, v, o, hsame, rfl⟩ | ⟨rfl, rfl⟩ | hmoved | hadded |
    ⟨t, left, right, last, he, hmem, hlast, rfl⟩
  · exact .inl ⟨hmoves, w', hsame, .refl w'⟩
  · exact .inl ⟨hmoves, v, hsame, onlyObstacles_destroy v o⟩
  · exact .inl ⟨id, w, .refl w, onlyObstacles_collectGarbage w⟩
  · exact .inr (.inl hmoved)
  · exact .inr (.inr (.inl hadded))
  · exact .inr (.inr (.inr ⟨t, left, right, last, he, hmem, hlast, recycled_onlyObstacles w left right t last⟩))

/-! ## `BeginPlay` -/

/-- The world that the first `n` rounds of the start-up loop leave. -/
def withRounds (w : World K) (c : TileClass K) (tile : ℕ → TileDraw K) : ℕ → World K
  | 0 => w
  | n + 1 => (w.withRounds c tile n).withRound c (tile n)

/-- The start-up loop adds tiles and obstacles. -/
theorem withRounds_onlyTiles (w : World K) (c : TileClass K) (tile : ℕ → TileDraw K) :
    ∀ n, OnlyTiles w (w.withRounds c tile n)
  | 0 => (OnlyObstacles.refl w).onlyTiles
  | n + 1 => (withRounds_onlyTiles w c tile n).trans (withRound_onlyTiles _ c (tile n))

omit [LinearOrder K] in
theorem OnlyTiles.groundTileClass {w w' : World K} (h : OnlyTiles w w') :
    w'.gameMode.groundTileClass = w.gameMode.groundTileClass := by
  obtain ⟨_, _, hmode⟩ := h.gameMode
  rw [hmode]

/-- **The start-up loop** needs the spawns of every round. -/
theorem createInitialTiles_eq {c : TileClass K} {w : World K} (hc : w.gameMode.groundTileClass = some c)
    (tile : ℕ → TileDraw K) (n : ℕ) :
    (List.range n).foldlM (fun u i => World.createInitialTile (tile i) u) w =
      if ∀ i < n, (tile i).Safe then .ok (w.withRounds c tile n) else .error .nullPointer := by
  induction n with
  | zero =>
    rw [if_pos fun i hi => absurd hi (Nat.not_lt_zero i)]
    rfl
  | succ n ih =>
    rw [List.range_succ, List.foldlM_append, ih]
    by_cases hn : ∀ i < n, (tile i).Safe
    · have hclass := (withRounds_onlyTiles w c tile n).groundTileClass.trans hc
      rw [if_pos hn, ok_bind, List.foldlM_cons, createInitialTile_eq hclass]
      by_cases hlast : (tile n).Safe
      · have hall : ∀ i < n + 1, (tile i).Safe := fun i hi =>
          (Nat.lt_succ_iff_lt_or_eq.mp hi).elim (hn i) fun h => h ▸ hlast
        rw [if_pos hlast, if_pos hall]
        rfl
      · rw [if_neg hlast, if_neg fun hall => hlast (hall n (Nat.lt_succ_self n))]
        rfl
    · rw [if_neg hn, if_neg fun hall => hn fun i hi => hall i (hi.trans (Nat.lt_succ_self n))]
      rfl

variable [IsStrictOrderedRing K]

/-- **`BeginPlay`** needs the tile class and every spawn that it asks for, and then adds a tile for each
round to the opened world. -/
theorem beginPlay_eq_rounds (a : BeginPlayAnswers K) (w : World K) :
    w.beginPlay a =
      match w.gameMode.groundTileClass, a.firstTile with
      | some c, true =>
        if ∀ i < w.gameMode.numInitialGroundTiles.toNat, (a.tile i).Safe then
          .ok ((w.opened a.player c).withRounds c a.tile w.gameMode.numInitialGroundTiles.toNat)
        else .error .nullPointer
      | _, _ => .error .nullPointer := by
  rw [beginPlay_eq]
  rcases hc : w.gameMode.groundTileClass with _ | c
  · rfl
  · cases a.firstTile with
    | false => rfl
    | true =>
      have hopen : (w.opened a.player c).gameMode.groundTileClass = some c := hc
      exact createInitialTiles_eq hopen a.tile _

theorem beginPlay_eq_ok {a : BeginPlayAnswers K} {w w' : World K} :
    w.beginPlay a = .ok w' ↔ ∃ c, w.gameMode.groundTileClass = some c ∧ a.firstTile = true ∧
      (∀ i < w.gameMode.numInitialGroundTiles.toNat, (a.tile i).Safe) ∧
      w' = (w.opened a.player c).withRounds c a.tile w.gameMode.numInitialGroundTiles.toNat := by
  rw [beginPlay_eq_rounds]
  rcases w.gameMode.groundTileClass with _ | c
  · simp
  · cases a.firstTile with
    | false => simp
    | true =>
      split_ifs with hsafe
      · simpa [-Int.lt_toNat, eq_comm] using fun _ => hsafe
      · simp [-Int.lt_toNat, hsafe]

/-- **The rule of `BeginPlay`.** -/
theorem beginPlay_induction {I : World K → Prop} {a : BeginPlayAnswers K} {w w' : World K}
    {c : TileClass K} (h : w.beginPlay a = .ok w') (hc : w.gameMode.groundTileClass = some c)
    (hopen : I (w.opened a.player c)) (hround : ∀ u d, I u → I (u.withRound c d)) : I w' := by
  obtain ⟨c', hc', _, _, rfl⟩ := beginPlay_eq_ok.mp h
  cases hc.symm.trans hc'
  induction w.gameMode.numInitialGroundTiles.toNat with
  | zero => exact hopen
  | succ n ih => exact hround _ _ ih

/-- A `BeginPlay` that succeeds had a tile class. -/
theorem beginPlay_class {a : BeginPlayAnswers K} {w w' : World K} (h : w.beginPlay a = .ok w') :
    ∃ c, w.gameMode.groundTileClass = some c :=
  (beginPlay_eq_ok.mp h).imp fun _ => And.left

/-- The start-up loop adds tiles and obstacles to the opened world. -/
theorem beginPlay_onlyTiles {a : BeginPlayAnswers K} {w w' : World K} {c : TileClass K}
    (h : w.beginPlay a = .ok w') (hc : w.gameMode.groundTileClass = some c) :
    OnlyTiles (w.opened a.player c) w' :=
  beginPlay_induction (I := OnlyTiles (w.opened a.player c)) h hc (OnlyObstacles.refl _).onlyTiles
    fun u d hu => hu.trans (withRound_onlyTiles u c d)

/-- What `BeginPlay` makes of the class defaults, when its rounds all have the same answers. -/
def started (c : TileClass K) (n : ℤ) (player : Option CharacterId) (d : TileDraw K) (float : K → K := id) : World K :=
  ((World.fresh c n float).opened player c).withRounds c (fun _ => d) n.toNat

theorem beginPlay_fresh (c : TileClass K) (n : ℤ) (player : Option CharacterId) {d : TileDraw K}
    (hsafe : d.Safe) (float : K → K := id) :
    (World.fresh c n float).beginPlay ⟨player, true, fun _ => d⟩ = .ok (started c n player d float) :=
  beginPlay_eq_ok.mpr ⟨c, rfl, rfl, fun _ _ => hsafe, rfl⟩

end Ordered

end World

end EndlessRunner
