import EndlessRunner.Game.Machine
import Mathlib.Tactic.Positivity

/-!
# What each function leaves

One closed form for each function of the game mode: the world it leaves when it succeeds, and when
it does. The laws about runs read these equations and never unfold a function again.
-/

set_option autoImplicit false

namespace EndlessRunner

open Lib (Timer)

variable {K : Type} [Field K]

/-- The draw asks for an obstacle. -/
def ObstacleDraw.wanted [LinearOrder K] (d : ObstacleDraw K) : Bool := inRange d.randVal (1 / 2) 1 true true

/-- An obstacle that the draw asks for is spawned. -/
def ObstacleDraw.Safe [LinearOrder K] (d : ObstacleDraw K) : Prop := d.wanted = true → d.spawned = true

instance [LinearOrder K] (d : ObstacleDraw K) : Decidable d.Safe :=
  inferInstanceAs (Decidable (_ → _))

/-- The tile and the obstacles that one round of the start-up loop asks for are spawned. -/
def TileDraw.Safe [LinearOrder K] (d : TileDraw K) : Prop :=
  d.spawned = true ∧ d.left.Safe ∧ d.right.Safe

instance [LinearOrder K] (d : TileDraw K) : Decidable d.Safe := inferInstanceAs (Decidable (_ ∧ _ ∧ _))

/-- A round whose tile stays without obstacles, and one that fills both lanes. -/
def TileDraw.bare : TileDraw K := ⟨true, ⟨0, true⟩, ⟨0, true⟩⟩

def TileDraw.full : TileDraw K := ⟨true, ⟨1, true⟩, ⟨1, true⟩⟩

theorem TileDraw.safe_bare [LinearOrder K] : (TileDraw.bare : TileDraw K).Safe :=
  ⟨rfl, fun _ => rfl, fun _ => rfl⟩

theorem TileDraw.safe_full [LinearOrder K] : (TileDraw.full : TileDraw K).Safe :=
  ⟨rfl, fun _ => rfl, fun _ => rfl⟩

/-- The lane's index in `SpawnObstacles`. -/
def Lane.index : Lane → ℤ
  | .left => 0
  | .center => 1
  | .right => 2

namespace World

/-! ## `ClearObstacles` -/

/-- The world after the first `n` entries of tile `t`'s list were visited: those of them that are null
stay, the others' obstacles are destroyed. -/
def clearedBelow (w : World K) (t : TileId) (n : ℕ) : World K :=
  { w with
    tiles := Function.update w.tiles t
      { w.tiles t with obstacles :=
          ((w.tiles t).obstacles.take n).filter (·.isNone) ++ (w.tiles t).obstacles.drop n }
    obstacles := fun o =>
      if some o ∈ (w.tiles t).obstacles.take n then { w.obstacles o with pendingKill := true }
      else w.obstacles o }

/-- Visiting a null entry leaves it where it is. -/
theorem clearedBelow_succ_of_none {w : World K} {t : TileId} {n : ℕ}
    (h : (w.tiles t).obstacles[n]? = some none) : w.clearedBelow t (n + 1) = w.clearedBelow t n := by
  have htake : (w.tiles t).obstacles.take (n + 1) = (w.tiles t).obstacles.take n ++ [none] := by
    rw [List.take_add_one, h, Option.toList_some]
  have hdrop : (w.tiles t).obstacles.drop n = none :: (w.tiles t).obstacles.drop (n + 1) := by
    obtain ⟨hlt, hn⟩ := List.getElem?_eq_some_iff.mp h
    rw [List.drop_eq_getElem_cons hlt, hn]
  simp [clearedBelow, htake, hdrop]

/-- Visiting any other entry takes it out and destroys its obstacle. -/
theorem clearedBelow_succ_of_some {w : World K} {t : TileId} {n : ℕ} {o : ObstacleId}
    (h : (w.tiles t).obstacles[n]? = some (some o)) :
    w.clearedBelow t (n + 1) =
      ((w.modifyTile t fun tile => { tile with obstacles := (w.tiles t).obstacles.eraseIdx n }).destroy
        o).clearedBelow t n := by
  obtain ⟨hlt, hn⟩ := List.getElem?_eq_some_iff.mp h
  have htake : (w.tiles t).obstacles.take (n + 1) = (w.tiles t).obstacles.take n ++ [some o] := by
    rw [List.take_add_one, h, Option.toList_some]
  have herase : (w.tiles t).obstacles.eraseIdx n =
      (w.tiles t).obstacles.take n ++ (w.tiles t).obstacles.drop (n + 1) :=
    List.eraseIdx_eq_take_drop_succ _ _
  have hlen : ((w.tiles t).obstacles.take n).length = n := by
    rw [List.length_take, min_eq_left hlt.le]
  have htake' : ((w.tiles t).obstacles.eraseIdx n).take n = (w.tiles t).obstacles.take n := by
    rw [herase, List.take_left' hlen]
  have hdrop' : ((w.tiles t).obstacles.eraseIdx n).drop n = (w.tiles t).obstacles.drop (n + 1) := by
    rw [herase, List.drop_left' hlen]
  have hobstacles : (w.clearedBelow t (n + 1)).obstacles =
      (((w.modifyTile t fun tile => { tile with obstacles := (w.tiles t).obstacles.eraseIdx n }).destroy
        o).clearedBelow t n).obstacles := by
    funext p
    by_cases hp : p = o
    · subst hp
      simp [clearedBelow, modifyTile, destroy, modifyObstacle, htake, htake']
    · simp [clearedBelow, modifyTile, destroy, modifyObstacle, htake, htake', hp]
  have htiles : (w.clearedBelow t (n + 1)).tiles =
      (((w.modifyTile t fun tile => { tile with obstacles := (w.tiles t).obstacles.eraseIdx n }).destroy
        o).clearedBelow t n).tiles := by
    simp [clearedBelow, modifyTile, destroy, modifyObstacle, htake, htake', hdrop']
  exact congrArg₂ (fun T O => { w with tiles := T, obstacles := O }) htiles hobstacles

/-- The loop of `ClearObstacles` stays in range and visits every entry. -/
theorem clearLoop_eq (t : TileId) : ∀ (n : ℕ) (w : World K), n ≤ (w.tiles t).obstacles.length →
    (clearLoop t n w).result = .ok (w.clearedBelow t n)
  | 0, w, _ => by
    simp [clearLoop, clearedBelow, pure]
  | n + 1, w, hn => by
    have hlt : n < (w.tiles t).obstacles.length := hn
    have hentry := List.getElem?_eq_getElem hlt
    rw [clearLoop, TArray.get_natCast hlt, Logged.call_ok_bind]
    cases ho : (w.tiles t).obstacles[n] with
    | none =>
      rw [clearedBelow_succ_of_none (hentry.trans (congrArg some ho))]
      exact clearLoop_eq t n w hlt.le
    | some o =>
      rw [clearedBelow_succ_of_some (hentry.trans (congrArg some ho))]
      simp only [TArray.removeAt_natCast hlt, Logged.call_ok_bind]
      refine clearLoop_eq t n _ ?_
      rw [destroy_tiles, modifyTile_tiles_self, List.length_eraseIdx_of_lt hlt]
      exact Nat.le_sub_one_of_lt hlt

/-- The world `ClearObstacles` leaves. -/
def cleared (w : World K) (t : TileId) : World K := w.clearedBelow t (w.tiles t).obstacles.length

theorem tiles_cleared_of_ne (w : World K) {s t : TileId} (hs : s ≠ t) : (w.cleared t).tiles s = w.tiles s :=
  Function.update_of_ne hs ..

theorem clearObstacles_some (w : World K) (t : TileId) :
    w.clearObstacles (some t) = .ok (w.cleared t) :=
  clearLoop_eq t _ w le_rfl

/-- Of the list of the tile only the null entries are left. -/
theorem cleared_obstacles (w : World K) (t : TileId) :
    ((w.cleared t).tiles t).obstacles = (w.tiles t).obstacles.filter (·.isNone) := by
  simp [cleared, clearedBelow]

/-- Every obstacle of the list is destroyed, and no other. -/
theorem cleared_obstacle (w : World K) (t : TileId) (o : ObstacleId) :
    (w.cleared t).obstacles o =
      if some o ∈ (w.tiles t).obstacles then { w.obstacles o with pendingKill := true }
      else w.obstacles o := by
  simp [cleared, clearedBelow]

/-! ## `SpawnGroundTile` -/

/-- The world `SpawnGroundTile` leaves when a tile of class `c` was spawned. -/
def withTile (w : World K) (c : TileClass K) : World K :=
  { w with
    tiles := Function.update w.tiles w.numTiles
      { c with sceneComponent := w.gameMode.nextSpawnPoint, attached := true, obstacles := [] }
    numTiles := w.numTiles + 1
    gameMode.nextSpawnPoint := c.attachPoint * w.gameMode.nextSpawnPoint
    gameMode.groundTiles := w.gameMode.groundTiles ++ [some w.numTiles] }

@[simp] theorem tiles_withTile_self (w : World K) (c : TileClass K) : (w.withTile c).tiles w.numTiles =
    { c with sceneComponent := w.gameMode.nextSpawnPoint, attached := true, obstacles := [] } :=
  Function.update_self ..

theorem tiles_withTile_of_ne (w : World K) (c : TileClass K) {t : TileId} (ht : t ≠ w.numTiles) :
    (w.withTile c).tiles t = w.tiles t :=
  Function.update_of_ne ht ..

/-- A tile that is not spawned changes nothing, up to where its pointer is followed. -/
theorem spawnTileAtPoint_none {spawned : Bool} {w : World K} (h : (w.spawnTileAtPoint spawned).2 = none) :
    (w.spawnTileAtPoint spawned).1 = w := by
  unfold spawnTileAtPoint spawnTileActor at h ⊢
  rcases hc : w.gameMode.groundTileClass with _ | c
  · rfl
  · cases spawned with
    | false => rfl
    | true => simp [hc] at h

/-- **`SpawnGroundTile`** follows the tile pointer in every case, so it needs the tile. -/
theorem spawnGroundTile_eq (spawned : Bool) (w : World K) :
    w.spawnGroundTile spawned =
      match w.gameMode.groundTileClass, spawned with
      | some c, true => .ok (w.withTile c, some w.numTiles)
      | _, _ => .error .nullPointer := by
  rw [spawnGroundTile, spawnTileAtPoint]
  rcases hc : w.gameMode.groundTileClass with _ | c
  · simp [spawnTileActor, hc]
  · cases spawned with
    | false => simp [spawnTileActor]
    | true =>
      simp [spawnTileActor, hc, withTile, modifyTile, GroundTile.attachTransform, pure, Except.pure]

/-! ## `SwitchToLane` -/

/-- A lane switch starts, when there is a player and none is going on. -/
def lockLanes (w : World K) : World K :=
  if (w.gameMode.player.isSome && w.gameMode.canSwitchLanes) = true then
    { w with gameMode.canSwitchLanes := false }
  else w

/-- Only the flag of the lanes is touched. -/
theorem lockLanes_frame (w : World K) : ∃ can, w.lockLanes = { w with gameMode.canSwitchLanes := can } := by
  unfold lockLanes
  split_ifs
  · exact ⟨false, rfl⟩
  · exact ⟨w.gameMode.canSwitchLanes, rfl⟩

theorem switchToLane_eq (laneIndex : ℤ) (w : World K) :
    w.switchToLane laneIndex =
      TArray.get w.gameMode.laneSwitchValues laneIndex >>= fun _ => .ok w.lockLanes := by
  rw [switchToLane]
  congr 1
  funext _
  unfold lockLanes
  split_ifs <;> rfl

theorem switchToLane_eq_ok {laneIndex : ℤ} {w w' : World K} (h : w.switchToLane laneIndex = .ok w') :
    w' = w.lockLanes := by
  rw [switchToLane_eq] at h
  obtain ⟨_, _, h⟩ := bind_eq_ok.mp h
  cases h
  rfl

/-! ## `SpawnObstacles` -/

/-- The world in which `SpawnObstacles` has put an obstacle on lane `l` of tile `t`. -/
def withObstacle (w : World K) (t : TileId) (l : Lane) : World K :=
  { w with
    tiles := Function.update w.tiles t
      { w.tiles t with obstacles := (w.tiles t).obstacles ++ [some w.numObstacles] }
    obstacles := Function.update w.obstacles w.numObstacles
      { pendingKill := false
        attachParent := some (t, l)
        relative := ((w.tiles t).laneTransform l).setLocation 0 }
    numObstacles := w.numObstacles + 1 }

@[simp] theorem tiles_withObstacle_self (w : World K) (t : TileId) (l : Lane) : (w.withObstacle t l).tiles t =
    { w.tiles t with obstacles := (w.tiles t).obstacles ++ [some w.numObstacles] } :=
  Function.update_self ..

theorem tiles_withObstacle_of_ne (w : World K) {s t : TileId} (l : Lane) (hs : s ≠ t) :
    (w.withObstacle t l).tiles s = w.tiles s :=
  Function.update_of_ne hs ..

theorem laneComponent_index (t : TileId) (l : Lane) :
    laneComponent (some t) l.index = .ok (some (t, l)) := by
  cases l <;> rfl

section Ordered

variable [LinearOrder K]

/-- The world `SpawnObstacles` leaves when it does not fault. -/
def withDraw (w : World K) (draw : ObstacleDraw K) (t : TileId) (l : Lane) : World K :=
  if draw.wanted then w.withObstacle t l else w

theorem spawnObstacles_of_safe {draw : ObstacleDraw K} (h : draw.Safe) (w : World K) (t : TileId)
    (l : Lane) : w.spawnObstacles draw (some t) l.index = .ok (w.withDraw draw t l) := by
  rw [spawnObstacles, laneComponent_index, ok_bind]
  cases hw : draw.wanted with
  | false =>
    have hrange : inRange draw.randVal (1 / 2) 1 true true = false := hw
    simp [-one_div, withDraw, hw, hrange, pure, Except.pure]
  | true =>
    have hrange : inRange draw.randVal (1 / 2) 1 true true = true := hw
    simp [-one_div, hrange, hw, h hw, spawnObstacleActor, withDraw, withObstacle, modifyObstacle,
      modifyTile, pure, Except.pure]

/-- An obstacle that was asked for and not spawned is followed as if it were there. -/
theorem spawnObstacles_of_not_safe {draw : ObstacleDraw K} (h : ¬ draw.Safe) (w : World K)
    (t : TileId) (l : Lane) : w.spawnObstacles draw (some t) l.index = .error .nullPointer := by
  obtain ⟨hw, hs⟩ := Classical.not_imp.mp h
  have hrange : inRange draw.randVal (1 / 2) 1 true true = true := hw
  rw [spawnObstacles, laneComponent_index, ok_bind]
  simp [-one_div, hrange, spawnObstacleActor, Bool.eq_false_iff.mpr hs]

/-- The world after both lanes that are filled were given their draw. -/
def withDraws (w : World K) (left right : ObstacleDraw K) (t : TileId) : World K :=
  (w.withDraw left t .left).withDraw right t .right

/-- Both lanes that are filled, one after the other: each draw has to be safe. -/
theorem spawnBoth_eq (left right : ObstacleDraw K) (w : World K) (t : TileId) :
    (w.spawnObstacles left (some t) 0 >>= fun w => w.spawnObstacles right (some t) 2) =
      if left.Safe ∧ right.Safe then .ok (w.withDraws left right t) else .error .nullPointer := by
  by_cases hl : left.Safe
  · have hleft : w.spawnObstacles left (some t) 0 = _ := spawnObstacles_of_safe hl w t .left
    rw [hleft, ok_bind]
    by_cases hr : right.Safe
    · rw [if_pos ⟨hl, hr⟩]
      exact spawnObstacles_of_safe hr _ t .right
    · rw [if_neg fun h => hr h.2]
      exact spawnObstacles_of_not_safe hr _ t .right
  · have hleft : w.spawnObstacles left (some t) 0 = _ := spawnObstacles_of_not_safe hl w t .left
    rw [if_neg fun h => hl h.1, hleft, error_bind]

/-! ## `RecycleTile` -/

/-- The world in which tile `t` has gone to the end of the road, after tile `last`, and of the list. -/
def toEnd (w : World K) (t last : TileId) : World K :=
  { w with
    tiles := Function.update w.tiles t
      ((w.tiles t).setActorLocation (w.tiles last).attachTransform.translation)
    gameMode.groundTiles := TArray.remove w.gameMode.groundTiles (some t) ++ [some t] }

omit [LinearOrder K] in
@[simp] theorem tiles_toEnd_self (w : World K) (t last : TileId) : (w.toEnd t last).tiles t =
    (w.tiles t).setActorLocation (w.tiles last).attachTransform.translation :=
  Function.update_self ..

omit [LinearOrder K] in
theorem tiles_toEnd_of_ne (w : World K) {s t : TileId} (last : TileId) (hs : s ≠ t) :
    (w.toEnd t last).tiles s = w.tiles s :=
  Function.update_of_ne hs ..

/-- The world `RecycleTile` leaves. -/
def recycled (w : World K) (left right : ObstacleDraw K) (t last : TileId) : World K :=
  ((w.cleared t).toEnd t last).withDraws left right t

/-- **`RecycleTile`** needs a last tile, and both draws safe. -/
theorem recycleTile_eq (left right : ObstacleDraw K) (w : World K) (t : TileId) :
    w.recycleTile left right (some t) =
      match w.gameMode.groundTiles.getLast? with
      | none => .error .outOfRange
      | some none => .error .nullPointer
      | some (some last) =>
        if left.Safe ∧ right.Safe then .ok (w.recycled left right t last) else .error .nullPointer := by
  rw [recycleTile, clearObstacles_some, ok_bind]
  have hget := TArray.get_last (w.cleared t).gameMode.groundTiles
  rcases hlast : w.gameMode.groundTiles.getLast? with _ | _ | last
  · simp only [hget, show (w.cleared t).gameMode.groundTiles.getLast? = none from hlast]
    rfl
  · simp only [hget, show (w.cleared t).gameMode.groundTiles.getLast? = some none from hlast]
    rfl
  · simp only [hget, show (w.cleared t).gameMode.groundTiles.getLast? = some (some last) from hlast]
    exact spawnBoth_eq left right ((w.cleared t).toEnd t last) t

theorem recycleTile_eq_ok {left right : ObstacleDraw K} {w w' : World K} {t : TileId} :
    w.recycleTile left right (some t) = .ok w' ↔
      left.Safe ∧ right.Safe ∧ ∃ last, w.gameMode.groundTiles.getLast? = some (some last) ∧
        w' = w.recycled left right t last := by
  rw [recycleTile_eq]
  rcases w.gameMode.groundTiles.getLast? with _ | _ | last
  · simp
  · simp
  · by_cases h : left.Safe ∧ right.Safe
    · simp [h, eq_comm]
    · simp only [h, if_false, reduceCtorEq, false_iff]
      exact fun h' => h ⟨h'.1, h'.2.1⟩

/-! ## `BeginPlay` -/

/-- One round of the start-up loop that does not fault. -/
def withRound (w : World K) (c : TileClass K) (d : TileDraw K) : World K :=
  (w.withTile c).withDraws d.left d.right w.numTiles

theorem createInitialTile_eq {c : TileClass K} {w : World K} (hc : w.gameMode.groundTileClass = some c)
    (d : TileDraw K) :
    w.createInitialTile d = if d.Safe then .ok (w.withRound c d) else .error .nullPointer := by
  rw [createInitialTile, spawnGroundTile_eq, hc]
  cases hs : d.spawned with
  | false => simp [TileDraw.Safe, hs]
  | true => simpa [withRound, TileDraw.Safe, hs] using spawnBoth_eq d.left d.right (w.withTile c) w.numTiles

/-- The world of `BeginPlay` before its first tile. -/
def prepared (w : World K) (player : Option CharacterId) : World K :=
  { w with
    timers := w.timers ++
      [⟨w.time + 1 / 5, .togglePhysics false⟩, ⟨w.time + 3 / 10, .togglePhysics true⟩]
    groundTilesParent := ⟨w.gameMode.nextSpawnPoint.translation, 0⟩
    gameMode.player := player.or w.gameMode.player
    gameMode.laneSwitchValues := w.gameMode.laneSwitchValues ++ [-255, 0, 255] }

/-- The world with the lanes of a tile at transform `root` appended to the lane values. -/
def withLaneValues (w : World K) (c : TileClass K) (root : FTransform K) : World K :=
  { w with gameMode.laneSwitchValues := w.gameMode.laneSwitchValues ++
      [(c.leftLane * root).translation.y, (c.centerLane * root).translation.y,
        (c.rightLane * root).translation.y] }

/-- The world of `BeginPlay` before the start-up loop: one tile, whose lanes are appended to the lane
values. -/
def opened (w : World K) (player : Option CharacterId) (c : TileClass K) : World K :=
  ((w.prepared player).withTile c).withLaneValues c w.gameMode.nextSpawnPoint

theorem createInitialGroundTiles_eq (firstTile : Bool) (tile : ℕ → TileDraw K) (w : World K) :
    w.createInitialGroundTiles firstTile tile =
      match w.gameMode.groundTileClass, firstTile with
      | some c, true => (List.range w.gameMode.numInitialGroundTiles.toNat).foldlM
          (fun u i => u.createInitialTile (tile i)) ((w.withTile c).withLaneValues c w.gameMode.nextSpawnPoint)
      | _, _ => .error .nullPointer := by
  rw [createInitialGroundTiles, spawnGroundTile_eq]
  rcases w.gameMode.groundTileClass with _ | c
  · rfl
  · cases firstTile with
    | false => rfl
    | true =>
      simp [withLaneValues, withTile, GroundTile.laneTransform, TileClass.lane]

/-- **`BeginPlay`** is the start-up loop from the opened world, when there is a first tile. -/
theorem beginPlay_eq [IsStrictOrderedRing K] (a : BeginPlayAnswers K) (w : World K) :
    w.beginPlay a =
      match w.gameMode.groundTileClass, a.firstTile with
      | some c, true => (List.range w.gameMode.numInitialGroundTiles.toNat).foldlM
          (fun u i => u.createInitialTile (a.tile i)) (w.opened a.player c)
      | _, _ => .error .nullPointer := by
  have hshort : (0 : K) < 1 / 5 := by positivity
  have hlong : (0 : K) < 3 / 10 := by positivity
  rcases hc : w.gameMode.groundTileClass with _ | c
  · cases hp : a.player <;>
      simp [-one_div, beginPlay, createInitialGroundTiles_eq, setTimer, hshort, hlong, hc, hp]
  · cases hp : a.player <;> cases ht : a.firstTile <;>
      simp [-one_div, beginPlay, createInitialGroundTiles_eq, setTimer, hshort, hlong, hc, hp, ht, opened,
        prepared]

/-! ## `Tick` -/

/-- The speed after the next `Tick`. -/
def nextSpeed (w : World K) : K := w.gameMode.float (w.gameMode.speed + w.gameMode.speedIncrease)

/-- Every `Tick` first raises the speed. -/
def sped (w : World K) : World K := { w with gameMode.speed := w.nextSpeed }

/-- The point of the lane at `y` abreast of the player. -/
def laneTarget (w : World K) (y : K) : FVector K := ⟨w.character.location.x, y, w.character.location.z⟩

/-- A `Tick` during a lane switch towards the lane at `y`. -/
def switched (w : World K) (deltaSeconds y : K) : World K :=
  if FVector.distSquared w.character.location (w.laneTarget y) < 3 / 10 then
    { w.sped with gameMode.canSwitchLanes := true, character.location := w.laneTarget y }
  else
    { w.sped with character.location :=
        FVector.lerp w.character.location (w.laneTarget y) (deltaSeconds * w.gameMode.lanesSwitchingSpeed) }

theorem tick_eq (deltaSeconds : K) (w : World K) :
    w.tick deltaSeconds =
      if (w.gameMode.player.isSome && !w.gameMode.canSwitchLanes) = true then
        TArray.get w.gameMode.laneSwitchValues w.gameMode.currentLaneIndex >>= fun y =>
          .ok (w.switched deltaSeconds y)
      else .ok w.sped := by
  simp only [tick]
  refine if_congr Iff.rfl (congrArg _ (funext fun y => ?_)) rfl
  unfold switched laneTarget
  split_ifs <;> rfl

/-- A `Tick` succeeds when no lane switch is going on, or when the lane index is in range. -/
theorem tick_eq_ok {deltaSeconds : K} {w w' : World K} :
    w.tick deltaSeconds = .ok w' ↔
      ((w.gameMode.player.isSome && !w.gameMode.canSwitchLanes) = true ∧
        ∃ y, TArray.get w.gameMode.laneSwitchValues w.gameMode.currentLaneIndex = .ok y ∧
          w' = w.switched deltaSeconds y) ∨
      ((w.gameMode.player.isSome && !w.gameMode.canSwitchLanes) = false ∧ w' = w.sped) := by
  rw [tick_eq]
  cases h : w.gameMode.player.isSome && !w.gameMode.canSwitchLanes with
  | true =>
    rw [if_pos rfl, bind_eq_ok]
    simp [eq_comm]
  | false => simp [eq_comm]

/-- **What a `Tick` does**: it raises the speed, and during a lane switch it moves the player, who is put on the
lane when he was near it and on his way to it otherwise. -/
theorem tick_cases {deltaSeconds : K} {w w' : World K} (h : w.tick deltaSeconds = .ok w') :
    ((w.gameMode.player.isSome && !w.gameMode.canSwitchLanes) = false ∧ w' = w.sped) ∨
    ((w.gameMode.player.isSome && !w.gameMode.canSwitchLanes) = true ∧
      ∃ y, TArray.get w.gameMode.laneSwitchValues w.gameMode.currentLaneIndex = .ok y ∧
        (w' = { w.sped with gameMode.canSwitchLanes := true, character.location := w.laneTarget y } ∨
          w' = { w.sped with
            character.location := FVector.lerp w.character.location (w.laneTarget y)
              (deltaSeconds * w.gameMode.lanesSwitchingSpeed) })) := by
  rcases tick_eq_ok.mp h with ⟨hswitching, y, hy, rfl⟩ | ⟨hsettled, rfl⟩
  · refine .inr ⟨hswitching, y, hy, ?_⟩
    unfold switched
    split_ifs
    · exact .inl rfl
    · exact .inr rfl
  · exact .inl ⟨hsettled, rfl⟩

/-! ## `Move` -/

/-- The world in which the lane index has gone one lane to the side of `v`. -/
def steered (w : World K) (v : FVector2D K) : World K :=
  { w with gameMode.currentLaneIndex := clamp (w.gameMode.currentLaneIndex + sign v.x) 0 2 }

theorem move_eq (v : FVector2D K) (w : World K) :
    w.move v =
      if w.character.hasController = true ∧ w.gameMode.canSwitchLanes = true then
        TArray.get w.gameMode.laneSwitchValues (clamp (w.gameMode.currentLaneIndex + sign v.x) 0 2) >>=
          fun _ => .ok (w.steered v).lockLanes
      else .ok w := by
  rw [move]
  cases w.character.hasController with
  | false => rfl
  | true =>
    cases w.gameMode.canSwitchLanes with
    | false => rfl
    | true => exact switchToLane_eq _ (w.steered v)

/-- A `Move` steers and locks the lanes, or nothing happens. -/
theorem move_cases {v : FVector2D K} {w w' : World K} (h : w.move v = .ok w') :
    w' = w ∨ w' = (w.steered v).lockLanes := by
  rw [move_eq] at h
  split at h
  · obtain ⟨_, _, h⟩ := bind_eq_ok.mp h
    cases h
    exact .inr rfl
  · cases h
    exact .inl rfl

/-! ## An obstacle hit -/

/-- The world after obstacle `o` hit the runner. -/
def struck (w : World K) (o : ObstacleId) : World K :=
  ((if w.character.bIsInvincible = true then w else w.updateLives (-1)).togglePlayerInvincibility
    true).destroy o

theorem onCollisionBoxOverlap_eq (o : ObstacleId) (other : OtherActor) (w : World K) :
    w.onCollisionBoxOverlap o other =
      if (other.isThis && other.isOwner || !other.hasPlayerTag) = true then .ok w
      else match other.asCharacter with
        | some _ => .ok (w.struck o)
        | none => .error .nullPointer := by
  rw [onCollisionBoxOverlap]
  cases other.isThis && other.isOwner with
  | true => rfl
  | false =>
    cases other.hasPlayerTag with
    | false => rfl
    | true =>
      rcases other.asCharacter with _ | _
      · rfl
      · cases hi : w.character.bIsInvincible <;> simp [struck, hi, pure, Except.pure]

/-- A hit strikes the runner, or nothing happens. -/
theorem onCollisionBoxOverlap_eq_ok {o : ObstacleId} {other : OtherActor} {w w' : World K} :
    w.onCollisionBoxOverlap o other = .ok w' ↔
      ((other.isThis && other.isOwner || !other.hasPlayerTag) = true ∧ w' = w) ∨
      (((other.isThis && other.isOwner) = false ∧ other.hasPlayerTag = true ∧ other.asCharacter.isSome = true) ∧
        w' = w.struck o) := by
  have hok : ∀ v : World K, (Except.ok v : Except Fault (World K)) = .ok w' ↔ w' = v := fun v =>
    (Except.ok.injEq v w').to_iff.trans eq_comm
  rw [onCollisionBoxOverlap_eq]
  cases other.isThis && other.isOwner with
  | true => simp [hok]
  | false =>
    cases other.hasPlayerTag with
    | false => simp [hok]
    | true => cases other.asCharacter <;> simp [hok]

/-! ## Timers -/

/-- A vulnerable player's shield goes up, and the timer that takes it down is set. -/
def shielded (w : World K) (value : Bool) : World K :=
  { w with
    character.bIsInvincible := value
    timers := w.timers ++ [⟨w.time + w.gameMode.invincibilityDuration, .setInvincible (!value)⟩] }

theorem togglePlayerInvincibility_eq {w : World K} (hplayer : w.gameMode.player.isSome = true)
    (hduration : 0 < w.gameMode.invincibilityDuration) (value : Bool) :
    w.togglePlayerInvincibility value = w.shielded value := by
  obtain ⟨p, hp⟩ := Option.isSome_iff_exists.mp hplayer
  simp only [togglePlayerInvincibility, hp, setTimer, if_pos hduration, shielded]

/-- A call touches the shield and the timers only. -/
theorem togglePlayerInvincibility_frame (w : World K) (value : Bool) : ∃ timers flag,
    w.togglePlayerInvincibility value = { w with timers := timers, character.bIsInvincible := flag } := by
  unfold togglePlayerInvincibility setTimer
  split
  · split_ifs
    · exact ⟨_, value, rfl⟩
    · exact ⟨w.timers, value, rfl⟩
  · exact ⟨w.timers, w.character.bIsInvincible, rfl⟩

/-- A hit touches the lives, the shield and the timers, and destroys the obstacle. -/
theorem struck_frame (w : World K) (o : ObstacleId) : ∃ lives timers flag,
    lives = (if w.character.bIsInvincible = true then w.gameMode.lives else w.gameMode.lives - 1) ∧
      w.struck o = ({ w with
        gameMode.lives := lives
        timers := timers
        character.bIsInvincible := flag } : World K).destroy o := by
  unfold struck
  split_ifs
  · obtain ⟨timers, flag, hcall⟩ := togglePlayerInvincibility_frame w true
    exact ⟨_, timers, flag, rfl, by rw [hcall]⟩
  · obtain ⟨timers, flag, hcall⟩ := togglePlayerInvincibility_frame (w.updateLives (-1)) true
    exact ⟨_, timers, flag, rfl, by rw [hcall]; rfl⟩

/-- The world the lambda of a timer leaves. -/
def ran (w : World K) : TimerAction → World K
  | .togglePhysics value => { w with character.simulatePhysics := value }
  | .setInvincible value => { w with character.bIsInvincible := value }

omit [LinearOrder K] in
/-- Both lambdas follow the player pointer. -/
theorem runTimerAction_eq (action : TimerAction) (w : World K) :
    w.runTimerAction action =
      if w.gameMode.player.isSome = true then .ok (w.ran action) else .error .nullPointer := by
  cases action <;> rcases hp : w.gameMode.player with _ | p <;>
    simp [runTimerAction, togglePhysics, hp, ran, pure, Except.pure]

/-- The world the timer at index `i` of the queue leaves. -/
def fired (w : World K) (i : ℕ) (action : TimerAction) : World K :=
  { w with timers := w.timers.eraseIdx i }.ran action

omit [LinearOrder K] in
theorem fireTimer_eq {w : World K} {i : ℕ} {τ : Timer K TimerAction} (h : w.timers[i]? = some τ) :
    w.fireTimer i =
      if w.gameMode.player.isSome = true then .ok (w.fired i τ.action) else .error .nullPointer := by
  rw [fireTimer, h]
  exact runTimerAction_eq _ _

omit [LinearOrder K] in
theorem fireTimer_eq_ok {w w' : World K} {i : ℕ} (h : w.fireTimer i = .ok w') :
    w' = w ∨ ∃ τ, w.timers[i]? = some τ ∧ w' = w.fired i τ.action := by
  cases hi : w.timers[i]? with
  | none =>
    rw [fireTimer, hi] at h
    cases h
    exact .inl rfl
  | some τ =>
    rw [fireTimer_eq hi] at h
    split at h
    · cases h
      exact .inr ⟨τ, rfl, rfl⟩
    · cases h

end Ordered

end World

end EndlessRunner
