import EndlessRunner.Engine.Math
import EndlessRunner.Engine.Runtime
import EndlessRunner.Lib.Timers
import Mathlib.Logic.Function.Basic
import Mathlib.Data.Rat.Defs

/-!
# The state of the game

One structure per class of the source, with the properties its code reads or writes, and a `World`
that holds the one game mode, the one runner, the ground parent, and the tile and obstacle actors by
their identity. A pointer to an actor is an `Option` of its identity: null is `none`.

The defaults of `GameMode` are the initialisers of `FG_EndlessRunnerGameMode.h`; a property without
one is zero, as the engine makes it.
-/

set_option autoImplicit false

namespace EndlessRunner

open Lib (Timer)

/-- The identity of an `AGroundTile`. -/
abbrev TileId := ℕ

/-- The identity of an `ABaseObstacle`. -/
abbrev ObstacleId := ℕ

/-- The identity of the `AFG_EndlessRunnerCharacter`: the game has one. -/
abbrev CharacterId := Unit

/-- A tile's three lane arrows. -/
inductive Lane
  | left
  | center
  | right
deriving DecidableEq, Repr

/-- What the lambda of a `SetTimer` call does when the timer fires. -/
inductive TimerAction
  /-- `TogglePhysics(Value)`. -/
  | togglePhysics (value : Bool)
  /-- `Player->bIsInvincible = Value`. -/
  | setInvincible (value : Bool)
deriving DecidableEq, Repr

/-- The components of a ground tile, each relative to the tile's root. -/
structure TileClass (K : Type) [Field K] where
  attachPoint : FTransform K
  leftLane : FTransform K
  centerLane : FTransform K
  rightLane : FTransform K
  groundTriggerBox : FTransform K

/-- `AGroundTile`. -/
structure GroundTile (K : Type) [Field K] extends TileClass K where
  /-- The world transform of the root, `SceneComponent`. -/
  sceneComponent : FTransform K
  /-- Whether the root hangs on the ground parent's root. -/
  attached : Bool
  obstacles : List (Option ObstacleId)

/-- `ABaseObstacle`. -/
structure BaseObstacle (K : Type) [Field K] where
  /-- `Destroy` has been called. -/
  pendingKill : Bool
  /-- The lane arrow the root hangs on. -/
  attachParent : Option (TileId × Lane)
  /-- The root's relative transform. -/
  relative : FTransform K

/-- `AFG_EndlessRunnerCharacter`. -/
structure Character (K : Type) where
  location : FVector K
  bIsInvincible : Bool := false
  simulatePhysics : Bool := false
  /-- `Controller != nullptr`. -/
  hasController : Bool := true

/-- `AGroundTilesParent`. -/
structure GroundTilesParent (K : Type) where
  location : FVector K
  physicsLinearVelocity : FVector K

/-- `AFG_EndlessRunnerGameMode`. -/
structure GameMode (K : Type) [Field K] where
  groundTileClass : Option (TileClass K)
  numInitialGroundTiles : ℤ := 10
  nextSpawnPoint : FTransform K := 1
  laneSwitchValues : List K := []
  currentLaneIndex : ℤ := 0
  canSwitchLanes : Bool := false
  lanesSwitchingSpeed : K := 1 / 2
  /-- What the `float` that holds the speed keeps of a number: all of it, where arithmetic is exact. -/
  float : K → K := id
  speed : K := 600
  maxSpeed : K := 6000
  speedIncrease : K := float (1 / 10)
  groundTiles : List (Option TileId) := []
  player : Option CharacterId := none
  lives : ℤ := 3
  invincibilityDuration : K := 2

/-- The game, its actors and the engine's clock. -/
structure World (K : Type) [Field K] where
  gameMode : GameMode K
  character : Character K
  groundTilesParent : GroundTilesParent K
  tiles : TileId → GroundTile K
  /-- How many tiles were ever spawned; their identities are the numbers below it. -/
  numTiles : ℕ
  obstacles : ObstacleId → BaseObstacle K
  /-- How many obstacles were ever spawned. -/
  numObstacles : ℕ
  time : K
  timers : List (Timer K TimerAction)

variable {K : Type} [Field K]

/-! ## Component transforms -/

/-- A lane arrow, relative to the tile's root. -/
def TileClass.lane (c : TileClass K) : Lane → FTransform K
  | .left => c.leftLane
  | .center => c.centerLane
  | .right => c.rightLane

namespace GroundTile

/-- `AttachPoint->GetComponentTransform()`. -/
def attachTransform (t : GroundTile K) : FTransform K := t.attachPoint * t.sceneComponent

/-- `Lane->GetComponentTransform()`. -/
def laneTransform (t : GroundTile K) (l : Lane) : FTransform K := t.lane l * t.sceneComponent

/-- `GroundTriggerBox->GetComponentTransform()`. -/
def triggerTransform (t : GroundTile K) : FTransform K := t.groundTriggerBox * t.sceneComponent

/-- The root's world location, `GetActorLocation()`. -/
def location (t : GroundTile K) : FVector K := t.sceneComponent.translation

/-- `SetActorLocation`: the root moves, its rotation, scale and relative components stay. -/
def setActorLocation (t : GroundTile K) (v : FVector K) : GroundTile K :=
  { t with sceneComponent := t.sceneComponent.setLocation v }

/-- The tile moved with the parent it hangs on. -/
def moveBy (t : GroundTile K) (d : FVector K) : GroundTile K :=
  if t.attached then { t with sceneComponent := t.sceneComponent.translate d } else t

@[simp] theorem location_setActorLocation (t : GroundTile K) (v : FVector K) :
    (t.setActorLocation v).location = v := rfl

@[simp] theorem setActorLocation_obstacles (t : GroundTile K) (v : FVector K) :
    (t.setActorLocation v).obstacles = t.obstacles := rfl

@[simp] theorem setActorLocation_attached (t : GroundTile K) (v : FVector K) :
    (t.setActorLocation v).attached = t.attached := rfl

@[simp] theorem moveBy_obstacles (t : GroundTile K) (d : FVector K) :
    (t.moveBy d).obstacles = t.obstacles := by
  unfold moveBy
  split <;> rfl

@[simp] theorem moveBy_attached (t : GroundTile K) (d : FVector K) :
    (t.moveBy d).attached = t.attached := by
  unfold moveBy
  split <;> rfl

/-- What hangs on the ground parent moves with it, its components included. -/
theorem moveBy_of_attached {t : GroundTile K} (h : t.attached = true) (d : FVector K) :
    t.moveBy d = { t with sceneComponent := t.sceneComponent.translate d } := by
  rw [moveBy, if_pos h]

theorem attachTransform_moveBy {t : GroundTile K} (h : t.attached = true) (d : FVector K) :
    (t.moveBy d).attachTransform = t.attachTransform.translate d := by
  rw [moveBy_of_attached h]
  exact FTransform.mul_translate _ _ _

theorem triggerTransform_moveBy {t : GroundTile K} (h : t.attached = true) (d : FVector K) :
    (t.moveBy d).triggerTransform = t.triggerTransform.translate d := by
  rw [moveBy_of_attached h]
  exact FTransform.mul_translate _ _ _

theorem location_moveBy {t : GroundTile K} (h : t.attached = true) (d : FVector K) :
    (t.moveBy d).location = t.location + d := by
  rw [moveBy_of_attached h]
  rfl

end GroundTile

/-- The half-extents along X of a `GroundTriggerBox` at this transform, which scales it, and of the player's
`TriggerBox`, together. -/
def FTransform.triggerReach [LinearOrder K] (box : FTransform K) : K := 16 * |box.scale3D.x| + 32

/-! ## Updates of the world -/

namespace World

/-- Tile `t` changed by `f`. -/
def modifyTile (w : World K) (t : TileId) (f : GroundTile K → GroundTile K) : World K :=
  { w with tiles := Function.update w.tiles t (f (w.tiles t)) }

@[simp] theorem modifyTile_tiles_self (w : World K) (t : TileId) (f : GroundTile K → GroundTile K) :
    (w.modifyTile t f).tiles t = f (w.tiles t) :=
  Function.update_self ..

/-- Obstacle `o` changed by `f`. -/
def modifyObstacle (w : World K) (o : ObstacleId) (f : BaseObstacle K → BaseObstacle K) : World K :=
  { w with obstacles := Function.update w.obstacles o (f (w.obstacles o)) }

/-- `Obstacle->Destroy()`. -/
def destroy (w : World K) (o : ObstacleId) : World K :=
  w.modifyObstacle o fun b => { b with pendingKill := true }

@[simp] theorem destroy_tiles (w : World K) (o : ObstacleId) : (w.destroy o).tiles = w.tiles := rfl

/-- `Obstacle->GetActorTransform()`: the root's relative transform, from the component it hangs on. -/
def obstacleTransform (w : World K) (o : ObstacleId) : FTransform K :=
  match (w.obstacles o).attachParent with
  | some (t, l) => (w.obstacles o).relative * (w.tiles t).laneTransform l
  | none => (w.obstacles o).relative

/-- An obstacle actor that was spawned and not destroyed. -/
def Alive (w : World K) (o : ObstacleId) : Prop :=
  o < w.numObstacles ∧ (w.obstacles o).pendingKill = false

instance (w : World K) (o : ObstacleId) : Decidable (w.Alive o) :=
  inferInstanceAs (Decidable (o < w.numObstacles ∧ (w.obstacles o).pendingKill = false))

end World

end EndlessRunner
