import EndlessRunner.Game.Actors
import EndlessRunner.Lib.Machine

/-!
# The game as a machine

`Event` is everything that happens to the game after `BeginPlay`, each with the engine's answers, and
`game` the machine over them. Only the clock's events are guarded: time passes up to the first pending
timer, and a timer fires when it is due. Every order of the others is a run.
-/

set_option autoImplicit false

namespace EndlessRunner

open Lib (Machine Timer)

/-- What happens to the game after `BeginPlay`. -/
inductive Event (K : Type)
  /-- The game mode's `Tick`. -/
  | tick (deltaSeconds : K)
  /-- The ground parent's `Tick`. -/
  | groundTick
  /-- The ground parent moves by its velocity. -/
  | physics (deltaTime : K)
  /-- The ground parent is moved by any translation. -/
  | translate (d : FVector K)
  | move (movementVector : FVector2D K)
  | switchToLane (laneIndex : ℤ)
  | spawnGroundTile (spawned : Bool)
  /-- The runner's trigger box meets a tile's, and the tile is recycled. -/
  | recycle (tile : TileId) (left right : ObstacleDraw K)
  /-- An obstacle's collision box meets an actor. -/
  | hit (obstacle : ObstacleId) (other : OtherActor)
  | toggleInvincibility (value : Bool)
  | collectGarbage
  /-- Time passes. -/
  | advance (duration : K)
  /-- The timer at an index of the queue fires. -/
  | fire (index : ℕ)

namespace World

variable {K : Type} [Field K] [LinearOrder K]

/-- One event. -/
def step (w : World K) : Event K → Except Fault (World K)
  | .tick deltaSeconds => w.tick deltaSeconds
  | .groundTick => pure w.groundTick
  | .physics deltaTime => pure (w.physics deltaTime)
  | .translate d => pure (w.translateGround d)
  | .move v => w.move v
  | .switchToLane laneIndex => w.switchToLane laneIndex
  | .spawnGroundTile spawned => do
    let (w, _) ← w.spawnGroundTile spawned
    pure w
  | .recycle t left right => w.onTriggerBoxOverlap true (some t) left right
  | .hit o other => w.onCollisionBoxOverlap o other
  | .toggleInvincibility value => pure (w.togglePlayerInvincibility value)
  | .collectGarbage => pure w.collectGarbage
  | .advance d => pure { w with time := w.time + d }
  | .fire i => w.fireTimer i

/-- When the engine may bring an event: a recycled tile is one of the pool, the clock runs up to the
first pending timer, and a timer fires at its time. -/
def Enabled (w : World K) : Event K → Prop
  | .recycle t _ _ => some t ∈ w.gameMode.groundTiles
  | .advance d => 0 ≤ d ∧ Timer.Quiet w.timers (w.time + d)
  | .fire i => ∃ τ, w.timers[i]? = some τ ∧ τ.due = w.time
  | _ => True

instance (w : World K) : ∀ e, Decidable (w.Enabled e)
  | .recycle t _ _ => inferInstanceAs (Decidable (some t ∈ w.gameMode.groundTiles))
  | .advance d => inferInstanceAs (Decidable (0 ≤ d ∧ ∀ τ ∈ w.timers, w.time + d ≤ τ.due))
  | .fire i => inferInstanceAs (Decidable (∃ τ, w.timers[i]? = some τ ∧ τ.due = w.time))
  | .tick _ | .groundTick | .physics _ | .translate _ | .move _ | .switchToLane _ | .spawnGroundTile _
  | .hit _ _ | .toggleInvincibility _ | .collectGarbage => .isTrue trivial

end World

/-- The game. -/
def game (K : Type) [Field K] [LinearOrder K] : Machine (World K) (Event K) Fault where
  enabled := World.Enabled
  step := World.step

instance (K : Type) [Field K] [LinearOrder K] :
    ∀ (w : World K) (e : Event K), Decidable ((game K).enabled w e) :=
  fun w e => inferInstanceAs (Decidable (w.Enabled e))

/-- The world in which `BeginPlay` runs: nothing was spawned, and what the game mode collects at run time is empty. -/
structure World.Initial {K : Type} [Field K] (w : World K) : Prop where
  numTiles : w.numTiles = 0
  numObstacles : w.numObstacles = 0
  timers : w.timers = []
  groundTiles : w.gameMode.groundTiles = []
  laneSwitchValues : w.gameMode.laneSwitchValues = []
  blank : ∀ t, (w.tiles t).obstacles = []

/-- The class defaults with tile class `c` and `n` rounds of the start-up loop. -/
def World.fresh {K : Type} [Field K] (c : TileClass K) (n : ℤ) (float : K → K := id) : World K where
  gameMode := { groundTileClass := some c, numInitialGroundTiles := n, float := float }
  character := { location := 0 }
  groundTilesParent := ⟨0, 0⟩
  tiles _ := { c with sceneComponent := 1, attached := false, obstacles := [] }
  numTiles := 0
  obstacles _ := ⟨false, none, 1⟩
  numObstacles := 0
  time := 0
  timers := []

theorem World.fresh_initial {K : Type} [Field K] (c : TileClass K) (n : ℤ) (float : K → K := id) :
    (World.fresh c n float).Initial :=
  ⟨rfl, rfl, rfl, rfl, rfl, fun _ => rfl⟩

/-- A tile class whose components are unrotated, unscaled offsets. -/
def TileClass.ofOffsets {K : Type} [Field K] (attach left center right trigger : FVector K) :
    TileClass K where
  attachPoint := .ofOffset attach
  leftLane := .ofOffset left
  centerLane := .ofOffset center
  rightLane := .ofOffset right
  groundTriggerBox := .ofOffset trigger

end EndlessRunner
