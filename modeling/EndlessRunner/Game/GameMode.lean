import EndlessRunner.Game.State

/-!
# The game mode

`FG_EndlessRunnerGameMode.cpp`, function by function. Each function takes the world to the world it
leaves, or to the fault that stops the program. What the engine answers to a call that may fail, and
what it draws at random, are arguments: `ObstacleDraw` for one `SpawnObstacles`, `TileDraw` for one
round of the start-up loop, `BeginPlayAnswers` for one `BeginPlay`.
-/

set_option autoImplicit false

namespace EndlessRunner

open Lib (Timer)

/-- The engine's answers to one `SpawnObstacles`: the random draw, and whether `SpawnActor` yields
an obstacle when the draw asks for one. -/
structure ObstacleDraw (K : Type) where
  randVal : K
  spawned : Bool

/-- The engine's answers to one round of `CreateInitialGroundTiles`. -/
structure TileDraw (K : Type) where
  spawned : Bool
  left : ObstacleDraw K
  right : ObstacleDraw K

/-- A call in the loop of `ClearObstacles`: `Obstacles[i]`, `Obstacles.RemoveAt(i)`, or `Destroy`. -/
inductive ClearCall
  | read (i : ℤ)
  | removeAt (i : ℤ)
  | destroy (obstacle : ObstacleId)
deriving DecidableEq, Repr

/-- The engine's answers to one `BeginPlay`: the cast of the player character, the first tile, and
the rounds of the start-up loop. -/
structure BeginPlayAnswers (K : Type) where
  player : Option CharacterId
  firstTile : Bool
  tile : ℕ → TileDraw K

namespace World

variable {K : Type} [Field K] [LinearOrder K]

/-! ## Engine calls -/

/-- `SetTimer(Handle, Action, Rate, false)` with a fresh handle: a rate of zero or less schedules
nothing. -/
def setTimer (w : World K) (action : TimerAction) (rate : K) : World K :=
  if 0 < rate then { w with timers := w.timers ++ [⟨w.time + rate, action⟩] } else w

/-- `SpawnActor<AGroundTile>(GroundTileClass, NextSpawnPoint)`. -/
def spawnTileActor (w : World K) (spawned : Bool) : World K × Option TileId :=
  match w.gameMode.groundTileClass, spawned with
  | some c, true =>
    ({ w with
        tiles := Function.update w.tiles w.numTiles
          { c with sceneComponent := w.gameMode.nextSpawnPoint, attached := false, obstacles := [] }
        numTiles := w.numTiles + 1 },
      some w.numTiles)
  | _, _ => (w, none)

/-- `SpawnActor<ABaseObstacle>(SmallObstacleClass, SpawnLocation, AlwaysSpawn)`. -/
def spawnObstacleActor (w : World K) (spawned : Bool) (spawnLocation : FTransform K) :
    World K × Option ObstacleId :=
  if spawned then
    ({ w with
        obstacles := Function.update w.obstacles w.numObstacles
          { pendingKill := false, attachParent := none, relative := spawnLocation }
        numObstacles := w.numObstacles + 1 },
      some w.numObstacles)
  else (w, none)

/-! ## Lives and invincibility -/

/-- `TogglePhysics`. -/
def togglePhysics (value : Bool) (w : World K) : Except Fault (World K) := do
  let _ ← deref w.gameMode.player
  pure { w with character.simulatePhysics := value }

/-- `UpdateLives`. -/
def updateLives (value : ℤ) (w : World K) : World K :=
  { w with gameMode.lives := w.gameMode.lives + value }

/-- `TogglePlayerInvincibility`: set the flag now, and its negation when the timer fires. -/
def togglePlayerInvincibility (value : Bool) (w : World K) : World K :=
  match w.gameMode.player with
  | some _ =>
    setTimer { w with character.bIsInvincible := value } (.setInvincible (!value))
      w.gameMode.invincibilityDuration
  | none => w

/-! ## Lanes -/

/-- `SwitchToLane`: the target it reads is not used further. -/
def switchToLane (laneIndex : ℤ) (w : World K) : Except Fault (World K) := do
  let _targetY ← TArray.get w.gameMode.laneSwitchValues laneIndex
  if w.gameMode.player.isSome && w.gameMode.canSwitchLanes then
    pure { w with gameMode.canSwitchLanes := false }
  else
    pure w

/-- `Tick`. The sum of the speed and its increase is stored in a `float`. -/
def tick (deltaSeconds : K) (w : World K) : Except Fault (World K) := do
  let w := { w with gameMode.speed := w.gameMode.float (w.gameMode.speed + w.gameMode.speedIncrease) }
  if w.gameMode.player.isSome && !w.gameMode.canSwitchLanes then
    let currentPos := w.character.location
    let newY ← TArray.get w.gameMode.laneSwitchValues w.gameMode.currentLaneIndex
    let lerpTarget : FVector K := ⟨currentPos.x, newY, currentPos.z⟩
    let newPos := FVector.lerp currentPos lerpTarget (deltaSeconds * w.gameMode.lanesSwitchingSpeed)
    let w := { w with character.location := newPos }
    -- the test looks at the position before the move
    if FVector.distSquared currentPos lerpTarget < 3 / 10 then
      pure { w with gameMode.canSwitchLanes := true, character.location := lerpTarget }
    else
      pure w
  else
    pure w

/-! ## Obstacles -/

/-- The loop of `ClearObstacles`, with `n` entries of the tile's list still to visit: the index
runs from `n - 1` down to `0`. -/
def clearLoop (t : TileId) : ℕ → World K → Logged ClearCall (World K)
  | 0, w => pure w
  | n + 1, w => do
    let obstacle ← .call (.read n) (TArray.get (w.tiles t).obstacles n)
    match obstacle with
    | some o =>
      let entries ← .call (.removeAt n) (TArray.removeAt (w.tiles t).obstacles n)
      let w := w.modifyTile t fun tile => { tile with obstacles := entries }
      let w ← .call (.destroy o) (.ok (w.destroy o))
      clearLoop t n w
    | none => clearLoop t n w

/-- `ClearObstacles`. -/
def clearObstacles (tile : Option TileId) (w : World K) : Except Fault (World K) := do
  let t ← deref tile
  (clearLoop t (w.tiles t).obstacles.length w).result

/-- The lane component `SpawnObstacles` chooses; an index that names no lane leaves it null, and then
the tile pointer is not followed. -/
def laneComponent (tile : Option TileId) (laneIndex : ℤ) : Except Fault (Option (TileId × Lane)) :=
  if laneIndex = 0 then do
    let t ← deref tile
    pure (some (t, .left))
  else if laneIndex = 1 then do
    let t ← deref tile
    pure (some (t, .center))
  else if laneIndex = 2 then do
    let t ← deref tile
    pure (some (t, .right))
  else
    pure none

/-- `SpawnObstacles`. -/
def spawnObstacles (draw : ObstacleDraw K) (tile : Option TileId) (laneIndex : ℤ) (w : World K) :
    Except Fault (World K) := do
  match ← laneComponent tile laneIndex with
  | none => pure w
  | some (t, lane) =>
    let spawnLocation := (w.tiles t).laneTransform lane
    if inRange draw.randVal (1 / 2) 1 true true then
      let (w, obstacle) := w.spawnObstacleActor draw.spawned spawnLocation
      let o ← deref obstacle
      let w := w.modifyObstacle o fun b => { b with attachParent := some (t, lane) }
      let w := w.modifyObstacle o fun b => { b with relative := b.relative.setLocation 0 }
      pure (w.modifyTile t fun tile => { tile with obstacles := tile.obstacles ++ [obstacle] })
    else
      pure w

/-! ## Tiles -/

/-- `SpawnGroundTile` up to where it follows the tile pointer. -/
def spawnTileAtPoint (spawned : Bool) (w : World K) : World K × Option TileId :=
  let (w, tile) := w.spawnTileActor spawned
  match tile with
  | some t => ({ w with gameMode.nextSpawnPoint := (w.tiles t).attachTransform }, tile)
  | none => (w, tile)

/-- `SpawnGroundTile`. The tile pointer is tested before the spawn point is read and followed
without a test after it. -/
def spawnGroundTile (spawned : Bool) (w : World K) : Except Fault (World K × Option TileId) := do
  let (w, tile) := w.spawnTileAtPoint spawned
  let t ← deref tile
  let w := w.modifyTile t fun tile => { tile with attached := true }
  let w := { w with gameMode.groundTiles := w.gameMode.groundTiles ++ [tile] }
  pure (w, tile)

/-- One round of the loop of `CreateInitialGroundTiles`. The centre lane is left empty. -/
def createInitialTile (draw : TileDraw K) (w : World K) : Except Fault (World K) := do
  let (w, spawnedTile) ← w.spawnGroundTile draw.spawned
  let w ← w.spawnObstacles draw.left spawnedTile 0
  w.spawnObstacles draw.right spawnedTile 2

/-- `CreateInitialGroundTiles`. -/
def createInitialGroundTiles (firstTile : Bool) (tile : ℕ → TileDraw K) (w : World K) :
    Except Fault (World K) := do
  let (w, first) ← w.spawnGroundTile firstTile
  let w := match first with
    | some t => { w with gameMode.laneSwitchValues := w.gameMode.laneSwitchValues ++
        [((w.tiles t).laneTransform .left).translation.y,
          ((w.tiles t).laneTransform .center).translation.y,
          ((w.tiles t).laneTransform .right).translation.y] }
    | none => w
  (List.range w.gameMode.numInitialGroundTiles.toNat).foldlM (fun w i => w.createInitialTile (tile i)) w

/-- `RecycleTile`. -/
def recycleTile (left right : ObstacleDraw K) (tile : Option TileId) (w : World K) :
    Except Fault (World K) := do
  let w ← w.clearObstacles tile
  let lastIndex : ℤ := (w.gameMode.groundTiles.length : ℤ) - 1
  let lastTile ← TArray.get w.gameMode.groundTiles lastIndex
  let last ← deref lastTile
  let t ← deref tile
  let w := w.modifyTile t fun tile => tile.setActorLocation (w.tiles last).attachTransform.translation
  let w := { w with gameMode.groundTiles := TArray.remove w.gameMode.groundTiles tile ++ [tile] }
  let w ← w.spawnObstacles left tile 0
  w.spawnObstacles right tile 2

/-- `BeginPlay`. The ground parent's spawn is not one of the calls that may fail here. -/
def beginPlay (answers : BeginPlayAnswers K) (w : World K) : Except Fault (World K) := do
  let w := w.setTimer (.togglePhysics false) (1 / 5)
  let w := w.setTimer (.togglePhysics true) (3 / 10)
  let w := match answers.player with
    | some p => { w with gameMode.player := some p }
    | none => w
  let w := { w with groundTilesParent := ⟨w.gameMode.nextSpawnPoint.translation, 0⟩ }
  let w := if w.gameMode.groundTileClass.isSome then
      { w with gameMode.laneSwitchValues := w.gameMode.laneSwitchValues ++ [-255, 0, 255] }
    else w
  w.createInitialGroundTiles answers.firstTile answers.tile

end World

end EndlessRunner
