import EndlessRunner.Game.GameMode

/-!
# The other actors and the engine

The handlers of the runner, the obstacles and the ground parent, and what the engine does by itself
between them: it moves the ground parent with all that hangs on it, collects garbage, and fires timers.
-/

set_option autoImplicit false

namespace EndlessRunner

open Lib (Timer)

/-- What `OnCollisionBoxOverlap` learns about the other actor: whether it is the obstacle, whether it is
the obstacle's owner, whether it has the tag `Player`, and its cast to the runner's class. -/
structure OtherActor where
  isThis : Bool
  isOwner : Bool
  hasPlayerTag : Bool
  asCharacter : Option CharacterId
deriving DecidableEq, Repr

/-- The runner as the other actor of an overlap. -/
def OtherActor.runner : OtherActor where
  isThis := false
  isOwner := false
  hasPlayerTag := true
  asCharacter := some ()

/-- An actor with a trigger box. -/
inductive Actor
  | character (character : CharacterId)
  | groundTile (tile : TileId)
deriving DecidableEq, Repr

/-- The runner's `TriggerBox`, or the `GroundTriggerBox` of a tile. -/
inductive TriggerComponent
  | triggerBox
  | groundTriggerBox (tile : TileId)
deriving DecidableEq, Repr

/-- `Cast<AGroundTile>`. -/
def Actor.asGroundTile : Actor → Option TileId
  | .character _ => none
  | .groundTile t => some t

/-- `Cast<AFG_EndlessRunnerCharacter>`. -/
def Actor.asCharacter : Actor → Option CharacterId
  | .character c => some c
  | .groundTile _ => none

/-- `ComponentHasTag("GroundTriggerBox")`: the tiles' boxes carry the tag. -/
def TriggerComponent.hasGroundTag : TriggerComponent → Bool
  | .triggerBox => false
  | .groundTriggerBox _ => true

/-- What a begin-overlap handler is told of the overlap. -/
structure OverlapReport where
  overlappedComponent : TriggerComponent
  otherActor : Actor
  otherComp : TriggerComponent
deriving DecidableEq, Repr

/-- The overlap of the runner's box with the box of tile `t`, as it is reported to the runner. -/
def OverlapReport.toCharacter (t : TileId) : OverlapReport where
  overlappedComponent := .triggerBox
  otherActor := .groundTile t
  otherComp := .groundTriggerBox t

/-- The same overlap, as it is reported to the tile. -/
def OverlapReport.toGroundTile (t : TileId) : OverlapReport where
  overlappedComponent := .groundTriggerBox t
  otherActor := .character ()
  otherComp := .triggerBox

/-- The tile that `AFG_EndlessRunnerCharacter::OnTriggerBoxOverlap` hands to `RecycleTile`. -/
def OverlapReport.passedTile (report : OverlapReport) : Option TileId :=
  if report.otherComp.hasGroundTag then report.otherActor.asGroundTile else none

/-- `AGroundTile::OnTriggerBoxOverlap` of tile `t`: whether it broadcasts `OnTileOverlap`. -/
def OverlapReport.broadcasts (t : TileId) (report : OverlapReport) : Bool :=
  match report.otherActor.asCharacter with
  | none => false
  | some _ => if report.otherComp ≠ .groundTriggerBox t then false else true

namespace World

variable {K : Type} [Field K] [LinearOrder K]

/-- `AFG_EndlessRunnerCharacter::Move`. -/
def move (movementVector : FVector2D K) (w : World K) : Except Fault (World K) :=
  if w.character.hasController then
    if w.gameMode.canSwitchLanes then
      let w := { w with gameMode.currentLaneIndex := w.gameMode.currentLaneIndex + sign movementVector.x }
      let w := { w with gameMode.currentLaneIndex := clamp w.gameMode.currentLaneIndex 0 2 }
      w.switchToLane w.gameMode.currentLaneIndex
    else
      pure w
  else
    pure w

/-- `AFG_EndlessRunnerCharacter::OnTriggerBoxOverlap`, by whether the other component has the tag
`GroundTriggerBox` and by the other actor's cast to a ground tile. -/
def onTriggerBoxOverlap (hasGroundTag : Bool) (tile : Option TileId) (left right : ObstacleDraw K)
    (w : World K) : Except Fault (World K) :=
  if hasGroundTag then
    match tile with
    | some _ => w.recycleTile left right tile
    | none => pure w
  else
    pure w

/-- `ABaseObstacle::OnCollisionBoxOverlap`. `BeginPlay` has checked the game mode, so the branch
without one is not modelled. -/
def onCollisionBoxOverlap (o : ObstacleId) (other : OtherActor) (w : World K) :
    Except Fault (World K) :=
  if other.isThis && other.isOwner then
    pure w
  else if other.hasPlayerTag then do
    let _ ← deref other.asCharacter
    let w := if !w.character.bIsInvincible then w.updateLives (-1) else w
    let w := w.togglePlayerInvincibility true
    pure (w.destroy o)
  else
    pure w

/-- `AGroundTilesParent::Tick`: the velocity is set from the speed, whatever the frame's length. -/
def groundTick (w : World K) : World K :=
  let movementDirection : FVector K := ⟨1, 0, 0⟩
  let velocity := w.gameMode.speed • movementDirection
  { w with groundTilesParent.physicsLinearVelocity := -velocity }

/-! ## The engine -/

/-- A translation of the ground parent: what hangs on it moves alike. -/
def translateGround (d : FVector K) (w : World K) : World K :=
  { w with
    groundTilesParent.location := w.groundTilesParent.location + d
    tiles := fun t => (w.tiles t).moveBy d }

/-- The ground parent's motion over a frame, by its velocity. -/
def physics (deltaTime : K) (w : World K) : World K :=
  w.translateGround (deltaTime • w.groundTilesParent.physicsLinearVelocity)

/-- How far a tile's `GroundTriggerBox` is in front of the player's `TriggerBox`, from centre to centre along
X. -/
def triggerOffset (w : World K) (t : TileId) : K :=
  (w.tiles t).triggerTransform.translation.x - w.character.location.x

/-- Within what distance along X the two boxes overlap. -/
def triggerReach (w : World K) (t : TileId) : K := (w.tiles t).triggerTransform.triggerReach

/-- The two boxes overlap along X, where neither is turned. -/
def Overlaps (w : World K) (t : TileId) : Prop :=
  -w.triggerReach t ≤ w.triggerOffset t ∧ w.triggerOffset t ≤ w.triggerReach t

instance (w : World K) (t : TileId) : Decidable (w.Overlaps t) :=
  inferInstanceAs (Decidable (-w.triggerReach t ≤ w.triggerOffset t ∧ w.triggerOffset t ≤ w.triggerReach t))

/-- An entry of a garbage-collected array: null once its obstacle was destroyed. -/
def collectEntry (w : World K) : Option ObstacleId → Option ObstacleId
  | some o => if (w.obstacles o).pendingKill then none else some o
  | none => none

/-- Garbage collection, as the tiles' obstacle lists see it. -/
def collectGarbage (w : World K) : World K :=
  { w with tiles := fun t =>
      { w.tiles t with obstacles := (w.tiles t).obstacles.map w.collectEntry } }

/-- The lambda a timer runs. -/
def runTimerAction (action : TimerAction) (w : World K) : Except Fault (World K) :=
  match action with
  | .togglePhysics value => w.togglePhysics value
  | .setInvincible value => do
    let _ ← deref w.gameMode.player
    pure { w with character.bIsInvincible := value }

/-- The timer at index `i` of the queue fires, once. -/
def fireTimer (i : ℕ) (w : World K) : Except Fault (World K) :=
  match w.timers[i]? with
  | some τ => { w with timers := w.timers.eraseIdx i }.runTimerAction τ.action
  | none => pure w

end World

end EndlessRunner
