import EndlessRunner.Laws.Road

/-!
# Engine calls that fail

Spawns and casts may yield null. Some of the code tests what they yield, and some follows it without a test:
`SpawnGroundTile` tests the tile for the spawn point and then follows it in any case, `SpawnObstacles` follows the
obstacle, `TogglePhysics` the player, and an obstacle's overlap handler the cast of whoever has the player's
tag. `World.calls_survived_iff` says that these are the only null pointers ever followed, and that no run
survives them. None of the functions adds a null entry to a list.
-/

set_option autoImplicit false

namespace EndlessRunner

open Lib (Machine)

/-- The event is a garbage collection, which turns entries to null and adds none. -/
def Event.Collects {K : Type} : Event K → Prop
  | .collectGarbage => True
  | _ => False

variable {K : Type} [Field K]

namespace World

/-! ## Null entries -/

/-- No null tile was added to the pool, and no null obstacle to a tile's list. -/
structure AddsNoNull (w w' : World K) : Prop where
  groundTiles : w'.gameMode.groundTiles.count none ≤ w.gameMode.groundTiles.count none
  obstacles : ∀ t, (w'.tiles t).obstacles.count none ≤ (w.tiles t).obstacles.count none

theorem AddsNoNull.refl (w : World K) : AddsNoNull w w := ⟨le_rfl, fun _ => le_rfl⟩

theorem AddsNoNull.trans {u v w : World K} (h : AddsNoNull u v) (h' : AddsNoNull v w) : AddsNoNull u w :=
  ⟨h'.groundTiles.trans h.groundTiles, fun t => (h'.obstacles t).trans (h.obstacles t)⟩

theorem AddsNoNull.of_sameRoad {w w' : World K} (h : SameRoad w w') : AddsNoNull w w' := by
  refine ⟨?_, ?_⟩
  · rw [h.groundTiles]
  · intro t
    rw [h.tiles]

theorem addsNoNull_translateGround (w : World K) (d : FVector K) : AddsNoNull w (w.translateGround d) := by
  refine ⟨le_rfl, ?_⟩
  intro t
  show ((w.tiles t).moveBy d).obstacles.count none ≤ _
  rw [GroundTile.moveBy_obstacles]

theorem addsNoNull_withTile (w : World K) (c : TileClass K) : AddsNoNull w (w.withTile c) := by
  refine ⟨?_, ?_⟩
  · show (w.gameMode.groundTiles ++ [some w.numTiles]).count none ≤ _
    rw [List.count_append]
    simp
  · intro t
    by_cases ht : t = w.numTiles
    · subst ht
      simp [withTile]
    · rw [tiles_withTile_of_ne w c ht]

/-- `ClearObstacles` keeps the null entries, and only them. -/
theorem addsNoNull_cleared (w : World K) (t : TileId) : AddsNoNull w (w.cleared t) := by
  refine ⟨le_rfl, ?_⟩
  intro s
  by_cases hs : s = t
  · subst hs
    rw [cleared_obstacles]
    exact List.filter_sublist.count_le none
  · rw [tiles_cleared_of_ne w hs]

theorem addsNoNull_toEnd (w : World K) (t last : TileId) : AddsNoNull w (w.toEnd t last) := by
  refine ⟨?_, ?_⟩
  · show (TArray.remove w.gameMode.groundTiles (some t) ++ [some t]).count none ≤ _
    rw [List.count_append, TArray.remove]
    simp
  · intro s
    by_cases hs : s = t
    · subst hs
      rw [tiles_toEnd_self, GroundTile.setActorLocation_obstacles]
    · rw [tiles_toEnd_of_ne w last hs]

theorem addsNoNull_withObstacle (w : World K) (t : TileId) (l : Lane) : AddsNoNull w (w.withObstacle t l) := by
  refine ⟨le_rfl, ?_⟩
  intro s
  by_cases hs : s = t
  · subst hs
    simp [withObstacle]
  · rw [tiles_withObstacle_of_ne w l hs]

section Ordered

variable [LinearOrder K]

theorem addsNoNull_withDraws (w : World K) (left right : ObstacleDraw K) (t : TileId) :
    AddsNoNull w (w.withDraws left right t) := by
  have hdraw : ∀ (u : World K) (d : ObstacleDraw K) (l : Lane), AddsNoNull u (u.withDraw d t l) := by
    intro u d l
    unfold withDraw
    split
    · exact addsNoNull_withObstacle u t l
    · exact .refl u
  exact (hdraw w left .left).trans (hdraw _ right .right)

/-- **No event but a collection leaves more null entries than there were.** -/
theorem addsNoNull_step {w w' : World K} {e : Event K} (hs : (game K).Step w e w') (he : ¬ e.Collects) :
    AddsNoNull w w' := by
  rcases obstacleStep_cases hs with ⟨_, hsame⟩ | ⟨_, v, o, hsame, rfl⟩ | ⟨rfl, _⟩ | ⟨d, _, rfl⟩ | ⟨_, c, _, _, rfl⟩ |
    ⟨t, left, right, last, _, _, _, rfl⟩
  · exact .of_sameRoad hsame
  · exact (AddsNoNull.of_sameRoad hsame).trans ⟨le_rfl, fun _ => le_rfl⟩
  · exact absurd trivial he
  · exact addsNoNull_translateGround w d
  · exact addsNoNull_withTile w c
  · exact ((addsNoNull_cleared w t).trans (addsNoNull_toEnd _ t last)).trans (addsNoNull_withDraws _ left right t)

theorem addsNoNull_beginPlay [IsStrictOrderedRing K] {w w₀ : World K} {a : BeginPlayAnswers K}
    (begun : w.beginPlay a = .ok w₀) : AddsNoNull w w₀ := by
  obtain ⟨c, hc⟩ := beginPlay_class begun
  apply beginPlay_induction (I := AddsNoNull w) begun hc
  · have hprepared : AddsNoNull w (w.prepared a.player) := ⟨le_rfl, fun _ => le_rfl⟩
    obtain ⟨hground, hlists⟩ := hprepared.trans (addsNoNull_withTile _ c)
    exact ⟨hground, hlists⟩
  · intro u d hu
    exact (hu.trans (addsNoNull_withTile u c)).trans (addsNoNull_withDraws _ d.left d.right u.numTiles)

/-! ## Null pointers -/

/-- The calls that `BeginPlay` makes succeed, where it follows what they yield. -/
def BeginPlayCallsSucceed (w : World K) (a : BeginPlayAnswers K) : Prop :=
  w.gameMode.groundTileClass.isSome = true ∧ a.firstTile = true ∧
    ∀ i < w.gameMode.numInitialGroundTiles.toNat, (a.tile i).Safe

/-- The calls that an event makes succeed, where it follows what they yield: the spawn of a tile, the spawn of an
obstacle that the draw asks for, the cast of an actor with the player's tag, and, for a timer, the cast of the
player in `BeginPlay`. -/
def CallsSucceed (w : World K) : Event K → Prop
  | .spawnGroundTile spawned => w.gameMode.groundTileClass.isSome = true ∧ spawned = true
  | .recycle _ left right => left.Safe ∧ right.Safe
  | .hit _ other => (other.isThis && other.isOwner) = false → other.hasPlayerTag = true →
      other.asCharacter.isSome = true
  | .fire _ => w.gameMode.player.isSome = true
  | _ => True

omit [LinearOrder K] in
/-- Reading a lane value follows no pointer. -/
theorem get_then_ok_ne_nullPointer (xs : List K) (i : ℤ) (f : K → World K) :
    (TArray.get xs i >>= fun y => (.ok (f y) : Except Fault (World K))) ≠ .error .nullPointer := by
  intro h
  cases hget : TArray.get xs i with
  | ok y =>
    rw [hget] at h
    cases h
  | error x =>
    rw [hget] at h
    cases h
    exact TArray.get_ne_nullPointer xs i hget

/-- **An event follows a null pointer exactly when one of its calls fails.** -/
theorem step_ne_nullPointer_iff {w : World K} {e : Event K} (hpool : ∃ ids, Pool w ids) (hen : w.Enabled e) :
    w.step e ≠ .error .nullPointer ↔ CallsSucceed w e := by
  cases e with
  | tick dt =>
    refine iff_of_true ?_ trivial
    show w.tick dt ≠ _
    rw [tick_eq]
    split
    · exact get_then_ok_ne_nullPointer _ _ _
    · exact fun h => by cases h
  | move v =>
    refine iff_of_true ?_ trivial
    show w.move v ≠ _
    rw [move_eq]
    split
    · exact get_then_ok_ne_nullPointer _ _ _
    · exact fun h => by cases h
  | switchToLane i =>
    refine iff_of_true ?_ trivial
    show w.switchToLane i ≠ _
    rw [switchToLane_eq]
    exact get_then_ok_ne_nullPointer _ _ _
  | spawnGroundTile spawned =>
    simp only [step, spawnGroundTile_eq, CallsSucceed]
    rcases w.gameMode.groundTileClass with _ | c
    · simp
    · cases spawned <;> simp [pure, Except.pure]
  | recycle t left right =>
    obtain ⟨ids, hids⟩ := hpool
    have hne : ids ≠ [] := List.ne_nil_of_mem (hids.some_mem.mp hen)
    have hlast := hids.getLast?.mpr (List.getLast?_eq_some_getLast hne)
    show w.recycleTile left right (some t) ≠ _ ↔ _
    rw [recycleTile_eq, hlast]
    by_cases hsafe : left.Safe ∧ right.Safe
    · simp [CallsSucceed, hsafe]
    · simp only [if_neg hsafe, CallsSucceed]
      exact iff_of_false (fun h => h rfl) hsafe
  | hit o other =>
    show w.onCollisionBoxOverlap o other ≠ _ ↔ _
    rw [onCollisionBoxOverlap_eq, CallsSucceed]
    cases other.isThis && other.isOwner with
    | true => simp
    | false =>
      cases other.hasPlayerTag with
      | false => simp
      | true => cases other.asCharacter <;> simp
  | fire i =>
    obtain ⟨τ, hτ, _⟩ := hen
    show w.fireTimer i ≠ _ ↔ _
    rw [fireTimer_eq hτ, CallsSucceed]
    split
    · rename_i hplayer
      exact iff_of_true (fun h => by cases h) hplayer
    · rename_i hplayer
      exact iff_of_false (fun h => h rfl) hplayer
  | _ => exact iff_of_true (fun h => by cases h) trivial

/-- The event is survived: no null pointer is followed, no null entry is added, and a tile spawn that fails leaves the
pool and the spawn point as they were, up to where the tile is followed. -/
def Survived (w : World K) (e : Event K) : Prop :=
  w.Enabled e → w.step e ≠ .error .nullPointer ∧
    (∀ w', w.step e = .ok w' → ¬ e.Collects → AddsNoNull w w') ∧
    ∀ spawned, e = .spawnGroundTile spawned → (w.spawnTileAtPoint spawned).2 = none →
      (w.spawnTileAtPoint spawned).1.gameMode.groundTiles = w.gameMode.groundTiles ∧
        (w.spawnTileAtPoint spawned).1.gameMode.nextSpawnPoint = w.gameMode.nextSpawnPoint

/-- No call of the event fails whose result it follows. -/
def NoCallFails (w : World K) (e : Event K) : Prop := w.Enabled e → CallsSucceed w e

theorem survived_iff {w : World K} {e : Event K} (hpool : ∃ ids, Pool w ids) :
    Survived w e ↔ NoCallFails w e := by
  constructor
  · intro h hen
    exact (step_ne_nullPointer_iff hpool hen).mp (h hen).1
  · intro h hen
    refine ⟨(step_ne_nullPointer_iff hpool hen).mpr (h hen), ?_, ?_⟩
    · exact fun w' hstep => addsNoNull_step ⟨hen, hstep⟩
    · intro spawned _ hnone
      rw [spawnTileAtPoint_none hnone]
      exact ⟨rfl, rfl⟩

variable [IsStrictOrderedRing K]

theorem beginPlay_ne_nullPointer_iff (a : BeginPlayAnswers K) (w : World K) :
    w.beginPlay a ≠ .error .nullPointer ↔ BeginPlayCallsSucceed w a := by
  rw [beginPlay_eq_rounds, BeginPlayCallsSucceed]
  rcases w.gameMode.groundTileClass with _ | c
  · simp
  · cases a.firstTile with
    | false => simp
    | true =>
      by_cases hsafe : ∀ i < w.gameMode.numInitialGroundTiles.toNat, (a.tile i).Safe
      · simp only [if_pos hsafe]
        exact iff_of_true (fun h => by cases h) ⟨rfl, trivial, hsafe⟩
      · simp only [if_neg hsafe]
        exact iff_of_false (fun h => h rfl) fun h => hsafe h.2.2

/-- **A `BeginPlay` and what comes after it survive the engine's calls exactly when no call fails whose result is
followed**: a tile, an obstacle, the player for a timer, an actor with the player's tag. -/
theorem calls_survived_iff {w : World K} (init : w.Initial) (a : BeginPlayAnswers K) (es : List (Event K)) :
    (w.beginPlay a ≠ .error .nullPointer ∧
      ∀ w₀, w.beginPlay a = .ok w₀ → AddsNoNull w w₀ ∧ (game K).Along Survived w₀ es) ↔
    BeginPlayCallsSucceed w a ∧ ∀ w₀, w.beginPlay a = .ok w₀ → (game K).Along NoCallFails w₀ es := by
  rw [beginPlay_ne_nullPointer_iff]
  constructor
  · intro h
    refine ⟨h.1, ?_⟩
    intro w₀ begun es₁ e es₂ u hsplit hu
    exact (survived_iff (init.pool begun hu)).mp ((h.2 w₀ begun).2 es₁ e es₂ u hsplit hu)
  · intro h
    refine ⟨h.1, ?_⟩
    intro w₀ begun
    refine ⟨addsNoNull_beginPlay begun, ?_⟩
    intro es₁ e es₂ u hsplit hu
    exact (survived_iff (init.pool begun hu)).mpr (h.2 w₀ begun es₁ e es₂ u hsplit hu)

/-- A road of one tile, on which the first timer fires. -/
theorem calls_survived_iff_oneTimer :
    let w : World ℚ := .fresh (.ofOffsets 0 0 0 0 0) 0
    let a : BeginPlayAnswers ℚ := ⟨some (), true, fun _ => .bare⟩
    (w.beginPlay a ≠ .error .nullPointer ∧ ∀ w₀, w.beginPlay a = .ok w₀ →
      AddsNoNull w w₀ ∧ (game ℚ).Along Survived w₀ [.advance (1 / 5), .fire 0]) ↔
    BeginPlayCallsSucceed w a ∧
      ∀ w₀, w.beginPlay a = .ok w₀ → (game ℚ).Along NoCallFails w₀ [.advance (1 / 5), .fire 0] :=
  calls_survived_iff (World.fresh_initial _ 0) _ _

/-- A first tile that is not spawned is followed all the same. -/
theorem not_calls_survived :
    ¬ ∀ (w : World ℚ) (a : BeginPlayAnswers ℚ) (es : List (Event ℚ)), w.Initial →
      w.beginPlay a ≠ .error .nullPointer ∧
        ∀ w₀, w.beginPlay a = .ok w₀ → AddsNoNull w w₀ ∧ (game ℚ).Along Survived w₀ es := by
  intro h
  have hfails := (h (.fresh (.ofOffsets 0 0 0 0 0) 0) ⟨some (), false, fun _ => .bare⟩ []
    (World.fresh_initial _ 0)).1
  exact absurd ((beginPlay_ne_nullPointer_iff _ _).mp hfails).2.1 Bool.false_ne_true

end Ordered

end World

end EndlessRunner
