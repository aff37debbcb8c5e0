import EndlessRunner.Laws.Frames
import EndlessRunner.Lib.Footprint

/-!
# What the events work with

The world in six parts: what is configured, the speed, the lanes, the ground's velocity, the road with its obstacles,
and the shield with the clock. `footprint` is the table of what each event reads and writes of them. The lanes and the
shield are machines of their own, each fed by its own events; speed, velocity and road form a chain.
-/

set_option autoImplicit false

namespace EndlessRunner

open Lib (Machine Footprint Timer)

variable {K : Type} [Field K]

/-! ## The parts -/

inductive Part
  | config
  | speed
  | lanes
  | velocity
  | road
  | shield
deriving DecidableEq, Repr

/-- What no event writes. -/
structure ConfigPart (K : Type) [Field K] where
  groundTileClass : Option (TileClass K)
  numInitialGroundTiles : ℤ
  laneSwitchValues : List K
  lanesSwitchingSpeed : K
  maxSpeed : K
  speedIncrease : K
  player : Option CharacterId
  invincibilityDuration : K
  hasController : Bool
  float : K → K

/-- What steering and switching work with. -/
structure LanesPart (K : Type) where
  currentLaneIndex : ℤ
  canSwitchLanes : Bool
  location : FVector K

/-- The tiles, the obstacles, and where they are. -/
structure RoadPart (K : Type) [Field K] where
  nextSpawnPoint : FTransform K
  groundTiles : List (Option TileId)
  parentLocation : FVector K
  tiles : TileId → GroundTile K
  numTiles : ℕ
  obstacles : ObstacleId → BaseObstacle K
  numObstacles : ℕ

/-- The lives, the shield, and the timers with their clock. -/
structure ShieldPart (K : Type) where
  lives : ℤ
  bIsInvincible : Bool
  simulatePhysics : Bool
  time : K
  timers : List (Timer K TimerAction)

def Part.View (K : Type) [Field K] : Part → Type
  | .config => ConfigPart K
  | .speed => K
  | .lanes => LanesPart K
  | .velocity => FVector K
  | .road => RoadPart K
  | .shield => ShieldPart K

namespace World

def configPart (w : World K) : ConfigPart K :=
  ⟨w.gameMode.groundTileClass, w.gameMode.numInitialGroundTiles, w.gameMode.laneSwitchValues,
    w.gameMode.lanesSwitchingSpeed, w.gameMode.maxSpeed, w.gameMode.speedIncrease, w.gameMode.player,
    w.gameMode.invincibilityDuration, w.character.hasController, w.gameMode.float⟩

def lanesPart (w : World K) : LanesPart K :=
  ⟨w.gameMode.currentLaneIndex, w.gameMode.canSwitchLanes, w.character.location⟩

def roadPart (w : World K) : RoadPart K :=
  ⟨w.gameMode.nextSpawnPoint, w.gameMode.groundTiles, w.groundTilesParent.location, w.tiles, w.numTiles,
    w.obstacles, w.numObstacles⟩

def shieldPart (w : World K) : ShieldPart K :=
  ⟨w.gameMode.lives, w.character.bIsInvincible, w.character.simulatePhysics, w.time, w.timers⟩

def view (w : World K) : (p : Part) → p.View K
  | .config => w.configPart
  | .speed => w.gameMode.speed
  | .lanes => w.lanesPart
  | .velocity => w.groundTilesParent.physicsLinearVelocity
  | .road => w.roadPart
  | .shield => w.shieldPart

theorem view_injective : Function.Injective (view (K := K)) := by
  intro w v h
  obtain ⟨⟨_, _, _, _, _, _, _, _, _, _, _, _, _, _, _⟩, ⟨_, _, _, _⟩, ⟨_, _⟩, _, _, _, _, _, _⟩ := w
  obtain ⟨⟨_, _, _, _, _, _, _, _, _, _, _, _, _, _, _⟩, ⟨_, _, _, _⟩, ⟨_, _⟩, _, _, _, _, _, _⟩ := v
  have hconfig := congrFun h .config
  have hspeed := congrFun h .speed
  have hlanes := congrFun h .lanes
  have hvelocity := congrFun h .velocity
  have hroad := congrFun h .road
  have hshield := congrFun h .shield
  cases hconfig
  cases hspeed
  cases hlanes
  cases hvelocity
  cases hroad
  cases hshield
  rfl

end World

/-! ## The table -/

/-- The parts an event may change. -/
def Event.writes : Event K → Set Part
  | .tick _ => {.speed, .lanes}
  | .groundTick => {.velocity}
  | .move _ | .switchToLane _ => {.lanes}
  | .physics _ | .translate _ | .spawnGroundTile _ | .recycle _ _ _ | .collectGarbage => {.road}
  | .hit _ _ => {.road, .shield}
  | .toggleInvincibility _ | .advance _ | .fire _ => {.shield}

/-- The parts that decide whether an event can be taken. -/
def Event.needs : Event K → Set Part
  | .tick _ | .move _ | .switchToLane _ => {.config, .lanes}
  | .spawnGroundTile _ => {.config}
  | .recycle _ _ _ => {.road}
  | .advance _ => {.shield}
  | .fire _ => {.config, .shield}
  | .groundTick | .physics _ | .translate _ | .hit _ _ | .toggleInvincibility _ | .collectGarbage => ∅

/-- The parts from which an event computes the new value of a part. -/
def Event.reads : Event K → Part → Set Part
  | .physics _, .road => {.velocity, .road}
  | .spawnGroundTile _, .road => {.config, .road}
  | _, .config => ∅
  | _, .speed => {.config, .speed}
  | _, .lanes => {.config, .lanes}
  | _, .velocity => {.speed}
  | _, .road => {.road}
  | _, .shield => {.config, .shield}

namespace World

theorem OnlyTiles.view_eq {w w' : World K} (h : OnlyTiles w w') {p : Part} (hp : p ≠ .road) :
    w'.view p = w.view p := by
  obtain ⟨_, _, hmode⟩ := h.gameMode
  cases p with
  | config =>
    show w'.configPart = w.configPart
    simp only [configPart, hmode, h.character]
  | speed =>
    show w'.gameMode.speed = w.gameMode.speed
    rw [hmode]
  | lanes =>
    show w'.lanesPart = w.lanesPart
    simp only [lanesPart, hmode, h.character]
  | velocity => exact congrArg GroundTilesParent.physicsLinearVelocity h.groundTilesParent
  | road => exact absurd rfl hp
  | shield =>
    show w'.shieldPart = w.shieldPart
    simp only [shieldPart, hmode, h.character, h.time, h.timers]

variable [LinearOrder K]

/-- **An event changes only what it writes.** -/
theorem view_step {w w' : World K} {e : Event K} (hs : (game K).Step w e w') {p : Part} (hp : p ∉ e.writes) :
    w'.view p = w.view p := by
  have hstep : w.step e = .ok w' := hs.2
  cases e with
  | tick dt =>
    rcases tick_cases hstep with ⟨_, rfl⟩ | ⟨_, y, _, rfl | rfl⟩ <;>
      cases p <;> first | rfl | simp [Event.writes] at hp
  | groundTick =>
    cases hstep
    cases p <;> first | rfl | simp [Event.writes] at hp
  | physics | translate | collectGarbage =>
    cases hstep
    cases p <;> first | rfl | simp [Event.writes] at hp
  | move v =>
    rcases move_cases hstep with rfl | rfl
    · rfl
    · obtain ⟨can, hlock⟩ := lockLanes_frame (w.steered v)
      rw [hlock]
      cases p <;> first | rfl | simp [Event.writes] at hp
  | switchToLane i =>
    obtain ⟨can, hlock⟩ := lockLanes_frame w
    rw [switchToLane_eq_ok hstep, hlock]
    cases p <;> first | rfl | simp [Event.writes] at hp
  | spawnGroundTile spawned =>
    obtain ⟨c, _, rfl⟩ := step_spawnGroundTile hstep
    exact (onlyTiles_withTile w c).view_eq hp
  | recycle t left right =>
    obtain ⟨_, _, last, _, rfl⟩ := recycleTile_eq_ok.mp hstep
    exact (recycled_onlyTiles w left right t last).view_eq hp
  | hit o other =>
    rcases onCollisionBoxOverlap_eq_ok.mp hstep with ⟨_, rfl⟩ | ⟨_, rfl⟩
    · rfl
    · obtain ⟨lives, timers, flag, _, hstruck⟩ := struck_frame w o
      rw [hstruck]
      cases p <;> first | rfl | simp [Event.writes] at hp
  | toggleInvincibility value =>
    cases hstep
    obtain ⟨timers, flag, hcall⟩ := togglePlayerInvincibility_frame w value
    rw [hcall]
    cases p <;> first | rfl | simp [Event.writes] at hp
  | advance d =>
    cases hstep
    cases p <;> first | rfl | simp [Event.writes] at hp
  | fire i =>
    rcases fireTimer_eq_ok hstep with hsame | ⟨τ, _, rfl⟩
    · rw [hsame]
    · cases τ.action <;> cases p <;> first | rfl | simp [Event.writes] at hp

theorem config_step {w w' : World K} {e : Event K} (hs : (game K).Step w e w') : w'.configPart = w.configPart :=
  view_step hs (p := .config) (by cases e <;> simp [Event.writes])

/-- **A run changes only what its events write.** -/
theorem view_run {w w' : World K} {es : List (Event K)} (hr : (game K).Run w es w') {p : Part}
    (hp : ∀ e ∈ es, p ∉ e.writes) : w'.view p = w.view p := by
  induction hr with
  | nil w => rfl
  | cons hs _ ih =>
    obtain ⟨he, hes⟩ := List.forall_mem_cons.mp hp
    exact (ih hes).trans (view_step hs he)

theorem config_run {w w' : World K} {es : List (Event K)} (hr : (game K).Run w es w') : w'.configPart = w.configPart :=
  view_run hr (p := .config) fun e _ => by cases e <;> simp [Event.writes]

omit [LinearOrder K] in
/-- What a `Tick` adds, and what the `float` keeps of the sum. -/
theorem increase_of_config {w w' : World K} (h : w'.configPart = w.configPart) :
    w'.gameMode.float = w.gameMode.float ∧ w'.gameMode.speedIncrease = w.gameMode.speedIncrease :=
  ⟨congrArg ConfigPart.float h, congrArg ConfigPart.speedIncrease h⟩

/-- A tile that cannot be spawned stops the program. -/
theorem spawned_of_step {w w' : World K} {spawned : Bool} (h : w.step (.spawnGroundTile spawned) = .ok w') :
    spawned = true := by
  cases spawned with
  | true => rfl
  | false =>
    simp only [step, spawnGroundTile_eq] at h
    rcases hc : w.gameMode.groundTileClass with _ | c <;> rw [hc] at h <;> cases h

/-- **Whether an event can be taken depends only on what it needs.** -/
theorem exists_step_of_view {w w' v : World K} {e : Event K} (hs : (game K).Step w e w')
    (h : ∀ p ∈ e.needs, v.view p = w.view p) : ∃ v', (game K).Step v e v' := by
  have hen : w.Enabled e := hs.1
  have hstep : w.step e = .ok w' := hs.2
  cases e with
  | tick dt =>
    have hconfig : v.configPart = w.configPart := h .config (by simp [Event.needs])
    have hlanes : v.lanesPart = w.lanesPart := h .lanes (by simp [Event.needs])
    simp only [configPart, lanesPart, ConfigPart.mk.injEq, LanesPart.mk.injEq] at hconfig hlanes
    rcases tick_eq_ok.mp hstep with ⟨hswitching, y, hy, _⟩ | ⟨hsettled, _⟩
    · refine ⟨_, trivial, tick_eq_ok.mpr (.inl ⟨?_, y, ?_, rfl⟩)⟩
      · simpa only [hconfig, hlanes] using hswitching
      · simpa only [hconfig, hlanes] using hy
    · refine ⟨_, trivial, tick_eq_ok.mpr (.inr ⟨?_, rfl⟩)⟩
      simpa only [hconfig, hlanes] using hsettled
  | move x =>
    have hconfig : v.configPart = w.configPart := h .config (by simp [Event.needs])
    have hlanes : v.lanesPart = w.lanesPart := h .lanes (by simp [Event.needs])
    simp only [configPart, lanesPart, ConfigPart.mk.injEq, LanesPart.mk.injEq] at hconfig hlanes
    have hmove : w.move x = .ok w' := hstep
    suffices hok : ∃ v', v.move x = .ok v' from hok.imp fun _ hv => ⟨trivial, hv⟩
    rw [move_eq] at hmove ⊢
    simp only [hconfig, hlanes]
    split at hmove
    · rename_i htaken
      obtain ⟨y, hy, _⟩ := bind_eq_ok.mp hmove
      rw [if_pos htaken, hy]
      exact ⟨_, rfl⟩
    · rename_i hignored
      rw [if_neg hignored]
      exact ⟨_, rfl⟩
  | switchToLane i =>
    have hconfig : v.configPart = w.configPart := h .config (by simp [Event.needs])
    simp only [configPart, ConfigPart.mk.injEq] at hconfig
    have hswitch : w.switchToLane i = .ok w' := hstep
    rw [switchToLane_eq] at hswitch
    obtain ⟨y, hy, _⟩ := bind_eq_ok.mp hswitch
    refine ⟨v.lockLanes, trivial, ?_⟩
    show v.switchToLane i = _
    rw [switchToLane_eq, hconfig.2.2.1, hy]
    rfl
  | spawnGroundTile spawned =>
    have hconfig : v.configPart = w.configPart := h .config (by simp [Event.needs])
    obtain ⟨c, hc, _⟩ := step_spawnGroundTile hstep
    cases spawned_of_step hstep
    exact ⟨_, trivial, step_spawnGroundTile_of_class ((congrArg ConfigPart.groundTileClass hconfig).trans hc)⟩
  | recycle t left right =>
    have hroad : v.roadPart = w.roadPart := h .road (by simp [Event.needs])
    have hpool : v.gameMode.groundTiles = w.gameMode.groundTiles := congrArg RoadPart.groundTiles hroad
    obtain ⟨hleft, hright, last, hlast, _⟩ := recycleTile_eq_ok.mp hstep
    have hen' : v.Enabled (.recycle t left right) := by
      show some t ∈ v.gameMode.groundTiles
      rw [hpool]
      exact hen
    exact ⟨_, hen', recycleTile_eq_ok.mpr ⟨hleft, hright, last, hpool ▸ hlast, rfl⟩⟩
  | hit o other =>
    rcases onCollisionBoxOverlap_eq_ok.mp hstep with ⟨hmiss, _⟩ | ⟨hmeets, _⟩
    · exact ⟨v, trivial, onCollisionBoxOverlap_eq_ok.mpr (.inl ⟨hmiss, rfl⟩)⟩
    · exact ⟨_, trivial, onCollisionBoxOverlap_eq_ok.mpr (.inr ⟨hmeets, rfl⟩)⟩
  | advance d =>
    have hshield : v.shieldPart = w.shieldPart := h .shield (by simp [Event.needs])
    have htime : v.time = w.time := congrArg ShieldPart.time hshield
    have htimers : v.timers = w.timers := congrArg ShieldPart.timers hshield
    refine ⟨_, ⟨hen.1, ?_⟩, rfl⟩
    rw [htime, htimers]
    exact hen.2
  | fire i =>
    have hconfig : v.configPart = w.configPart := h .config (by simp [Event.needs])
    have hshield : v.shieldPart = w.shieldPart := h .shield (by simp [Event.needs])
    have hplayer : v.gameMode.player = w.gameMode.player := congrArg ConfigPart.player hconfig
    have htimers : v.timers = w.timers := congrArg ShieldPart.timers hshield
    obtain ⟨τ, hτ, hdue⟩ := hen
    have hτ' : v.timers[i]? = some τ := htimers ▸ hτ
    have hfire : w.fireTimer i = .ok w' := hstep
    rw [fireTimer_eq hτ] at hfire
    refine ⟨v.fired i τ.action, ⟨τ, hτ', hdue.trans (congrArg ShieldPart.time hshield).symm⟩, ?_⟩
    show v.fireTimer i = _
    rw [fireTimer_eq hτ', hplayer]
    split at hfire
    · rename_i hsome
      rw [if_pos hsome]
    · cases hfire
  | groundTick | physics | translate | toggleInvincibility | collectGarbage => exact ⟨_, trivial, rfl⟩

/-! ## What the new values depend on -/

theorem tick_lanesPart {w w' v v' : World K} {dt : K} (hconfig : v.configPart = w.configPart)
    (hlanes : v.lanesPart = w.lanesPart) (hw : w.tick dt = .ok w') (hv : v.tick dt = .ok v') :
    v'.lanesPart = w'.lanesPart := by
  simp only [configPart, lanesPart, ConfigPart.mk.injEq, LanesPart.mk.injEq] at hconfig hlanes
  rw [tick_eq] at hw hv
  simp only [hconfig, hlanes] at hv
  split at hw
  · rename_i hswitching
    obtain ⟨y, hy, hw⟩ := bind_eq_ok.mp hw
    rw [if_pos hswitching, hy, ok_bind] at hv
    cases hw
    cases hv
    have htarget : v.laneTarget y = w.laneTarget y := by simp only [laneTarget, hlanes]
    unfold switched
    rw [htarget, hlanes.2.2]
    split_ifs
    · simp only [lanesPart, sped, hlanes]
    · simp only [lanesPart, sped, hlanes, hconfig]
  · rename_i hsettled
    rw [if_neg hsettled] at hv
    cases hw
    cases hv
    simp only [lanesPart, sped, hlanes]

omit [LinearOrder K] in
theorem lockLanes_lanesPart {w v : World K} (hconfig : v.configPart = w.configPart)
    (hlanes : v.lanesPart = w.lanesPart) : v.lockLanes.lanesPart = w.lockLanes.lanesPart := by
  simp only [configPart, lanesPart, ConfigPart.mk.injEq, LanesPart.mk.injEq] at hconfig hlanes
  by_cases hfree : (w.gameMode.player.isSome && w.gameMode.canSwitchLanes) = true
  · simp only [lockLanes, hconfig, hlanes, if_pos hfree, lanesPart]
  · simp only [lockLanes, hconfig, hlanes, if_neg hfree, lanesPart]

theorem move_lanesPart {w w' v v' : World K} {x : FVector2D K} (hconfig : v.configPart = w.configPart)
    (hlanes : v.lanesPart = w.lanesPart) (hw : w.move x = .ok w') (hv : v.move x = .ok v') :
    v'.lanesPart = w'.lanesPart := by
  have hsteered : (v.steered x).lanesPart = (w.steered x).lanesPart := by
    simp only [lanesPart, LanesPart.mk.injEq] at hlanes
    simp only [lanesPart, steered, hlanes]
  have hlocked : (v.steered x).lockLanes.lanesPart = (w.steered x).lockLanes.lanesPart :=
    lockLanes_lanesPart hconfig hsteered
  simp only [configPart, ConfigPart.mk.injEq] at hconfig
  have hcan : v.gameMode.canSwitchLanes = w.gameMode.canSwitchLanes := congrArg LanesPart.canSwitchLanes hlanes
  rw [move_eq] at hw hv
  simp only [hconfig, hcan] at hv
  split at hw
  · rename_i htaken
    obtain ⟨_, _, hw⟩ := bind_eq_ok.mp hw
    rw [if_pos htaken] at hv
    obtain ⟨_, _, hv⟩ := bind_eq_ok.mp hv
    cases hw
    cases hv
    exact hlocked
  · rename_i hignored
    rw [if_neg hignored] at hv
    cases hw
    cases hv
    exact hlanes

theorem toggle_shieldPart {w v : World K} (hconfig : v.configPart = w.configPart)
    (hshield : v.shieldPart = w.shieldPart) (value : Bool) :
    (v.togglePlayerInvincibility value).shieldPart = (w.togglePlayerInvincibility value).shieldPart := by
  simp only [configPart, shieldPart, ConfigPart.mk.injEq, ShieldPart.mk.injEq] at hconfig hshield
  simp only [togglePlayerInvincibility, setTimer, hconfig, hshield]
  split
  · split_ifs <;> simp only [shieldPart, hshield]
  · simp only [shieldPart, hshield]

theorem struck_shieldPart {w v : World K} (hconfig : v.configPart = w.configPart)
    (hshield : v.shieldPart = w.shieldPart) (o : ObstacleId) :
    (v.struck o).shieldPart = (w.struck o).shieldPart := by
  have hflag : v.character.bIsInvincible = w.character.bIsInvincible := congrArg ShieldPart.bIsInvincible hshield
  show ((if v.character.bIsInvincible = true then v else v.updateLives (-1)).togglePlayerInvincibility
      true).shieldPart = ((if w.character.bIsInvincible = true then w else w.updateLives
      (-1)).togglePlayerInvincibility true).shieldPart
  rw [hflag]
  split_ifs
  · exact toggle_shieldPart hconfig hshield true
  · refine toggle_shieldPart (w := w.updateLives (-1)) (v := v.updateLives (-1)) hconfig ?_ true
    simp only [shieldPart, ShieldPart.mk.injEq] at hshield
    simp only [shieldPart, updateLives, hshield]

omit [LinearOrder K] in
theorem fired_shieldPart {w v : World K} (hshield : v.shieldPart = w.shieldPart) (i : ℕ) (action : TimerAction) :
    (v.fired i action).shieldPart = (w.fired i action).shieldPart := by
  simp only [shieldPart, ShieldPart.mk.injEq] at hshield
  cases action <;> simp only [shieldPart, fired, ran, hshield]

/-! ## The road under another world -/

/-- The road of `w`, under the rest of `v`. -/
def graftRoad (w v : World K) : World K :=
  { v with
    gameMode.nextSpawnPoint := w.gameMode.nextSpawnPoint
    gameMode.groundTiles := w.gameMode.groundTiles
    groundTilesParent.location := w.groundTilesParent.location
    tiles := w.tiles
    numTiles := w.numTiles
    obstacles := w.obstacles
    numObstacles := w.numObstacles }

omit [LinearOrder K] in
theorem graftRoad_eq {w v : World K} (h : v.roadPart = w.roadPart) : v = w.graftRoad v := by
  simp only [roadPart, RoadPart.mk.injEq] at h
  obtain ⟨h₁, h₂, h₃, h₄, h₅, h₆, h₇⟩ := h
  simp only [graftRoad, ← h₁, ← h₂, ← h₃, ← h₄, ← h₅, ← h₆, ← h₇]

theorem withDraw_graftRoad (w v : World K) (d : ObstacleDraw K) (t : TileId) (l : Lane) :
    (w.graftRoad v).withDraw d t l = (w.withDraw d t l).graftRoad v := by
  unfold withDraw
  split_ifs <;> rfl

/-- `RecycleTile` works on the road alone. -/
theorem recycled_graftRoad (w v : World K) (left right : ObstacleDraw K) (t last : TileId) :
    (w.graftRoad v).recycled left right t last = (w.recycled left right t last).graftRoad v := by
  show (((w.cleared t).toEnd t last).graftRoad v).withDraws left right t = _
  unfold withDraws
  rw [withDraw_graftRoad, withDraw_graftRoad]
  rfl

theorem recycled_roadPart {w v : World K} (hroad : v.roadPart = w.roadPart) (left right : ObstacleDraw K)
    (t last : TileId) : (v.recycled left right t last).roadPart = (w.recycled left right t last).roadPart := by
  rw [graftRoad_eq hroad, recycled_graftRoad]
  rfl

omit [LinearOrder K] in
theorem withTile_roadPart {w v : World K} (hroad : v.roadPart = w.roadPart) (c : TileClass K) :
    (v.withTile c).roadPart = (w.withTile c).roadPart := by
  rw [graftRoad_eq hroad]
  rfl

omit [LinearOrder K] in
theorem translateGround_roadPart {w v : World K} (hroad : v.roadPart = w.roadPart) (d : FVector K) :
    (v.translateGround d).roadPart = (w.translateGround d).roadPart := by
  rw [graftRoad_eq hroad]
  rfl

omit [LinearOrder K] in
theorem collectGarbage_roadPart {w v : World K} (hroad : v.roadPart = w.roadPart) :
    v.collectGarbage.roadPart = w.collectGarbage.roadPart := by
  have hentry : v.collectEntry = w.collectEntry := by
    funext e
    have hobstacles : v.obstacles = w.obstacles := congrArg RoadPart.obstacles hroad
    cases e with
    | none => rfl
    | some o => simp only [collectEntry, hobstacles]
  simp only [roadPart, RoadPart.mk.injEq] at hroad
  simp only [roadPart, collectGarbage, hentry, hroad]

/-- A hit destroys the obstacle, whatever it does to the rest. -/
theorem struck_roadPart {w v : World K} (hroad : v.roadPart = w.roadPart) (o : ObstacleId) :
    (v.struck o).roadPart = (w.struck o).roadPart := by
  obtain ⟨_, _, _, _, hw⟩ := struck_frame w o
  obtain ⟨_, _, _, _, hv⟩ := struck_frame v o
  rw [hw, hv, graftRoad_eq hroad]
  rfl

/-- **What an event writes depends only on what it reads.** -/
theorem view_step_congr {w w' v v' : World K} {e : Event K} {p : Part} (hw : (game K).Step w e w')
    (hv : (game K).Step v e v') (hp : p ∈ e.writes) (h : ∀ q ∈ e.reads p, v.view q = w.view q) :
    v'.view p = w'.view p := by
  have hstep : w.step e = .ok w' := hw.2
  have hstep' : v.step e = .ok v' := hv.2
  cases e with
  | tick dt =>
    rcases hp with rfl | rfl
    · have hconfig : v.configPart = w.configPart := h .config (by simp [Event.reads])
      have hspeed : v.gameMode.speed = w.gameMode.speed := h .speed (by simp [Event.reads])
      have hincrease : v.gameMode.speedIncrease = w.gameMode.speedIncrease :=
        congrArg ConfigPart.speedIncrease hconfig
      have hsped : ∀ {u u' : World K}, u.tick dt = .ok u' →
          u'.gameMode.speed = u.nextSpeed := by
        intro u u' hu
        rcases tick_cases hu with ⟨_, rfl⟩ | ⟨_, y, _, rfl | rfl⟩ <;> rfl
      have hfloat : v.gameMode.float = w.gameMode.float := congrArg ConfigPart.float hconfig
      show v'.gameMode.speed = w'.gameMode.speed
      rw [hsped hstep, hsped hstep', nextSpeed, nextSpeed, hspeed, hincrease, hfloat]
    · exact tick_lanesPart (h .config (by simp [Event.reads])) (h .lanes (by simp [Event.reads])) hstep hstep'
  | groundTick =>
    cases hp
    cases hstep
    cases hstep'
    have hspeed : v.gameMode.speed = w.gameMode.speed := h .speed (by simp [Event.reads])
    show -(v.gameMode.speed • (⟨1, 0, 0⟩ : FVector K)) = -(w.gameMode.speed • (⟨1, 0, 0⟩ : FVector K))
    rw [hspeed]
  | physics dt =>
    cases hp
    cases hstep
    cases hstep'
    have hvelocity : v.groundTilesParent.physicsLinearVelocity = w.groundTilesParent.physicsLinearVelocity :=
      h .velocity (by simp [Event.reads])
    show (v.translateGround _).roadPart = (w.translateGround _).roadPart
    rw [hvelocity]
    exact translateGround_roadPart (h .road (by simp [Event.reads])) _
  | translate d =>
    cases hp
    cases hstep
    cases hstep'
    exact translateGround_roadPart (h .road (by simp [Event.reads])) d
  | move x =>
    cases hp
    exact move_lanesPart (h .config (by simp [Event.reads])) (h .lanes (by simp [Event.reads])) hstep hstep'
  | switchToLane i =>
    cases hp
    rw [switchToLane_eq_ok hstep, switchToLane_eq_ok hstep']
    exact lockLanes_lanesPart (h .config (by simp [Event.reads])) (h .lanes (by simp [Event.reads]))
  | spawnGroundTile spawned =>
    cases hp
    have hconfig : v.configPart = w.configPart := h .config (by simp [Event.reads])
    obtain ⟨c, hc, rfl⟩ := step_spawnGroundTile hstep
    obtain ⟨c', hc', rfl⟩ := step_spawnGroundTile hstep'
    cases ((congrArg ConfigPart.groundTileClass hconfig).trans hc).symm.trans hc'
    exact withTile_roadPart (h .road (by simp [Event.reads])) c
  | recycle t left right =>
    cases hp
    have hroad : v.roadPart = w.roadPart := h .road (by simp [Event.reads])
    obtain ⟨_, _, last, hlast, rfl⟩ := recycleTile_eq_ok.mp hstep
    obtain ⟨_, _, last', hlast', rfl⟩ := recycleTile_eq_ok.mp hstep'
    have hpool : v.gameMode.groundTiles = w.gameMode.groundTiles := congrArg RoadPart.groundTiles hroad
    rw [hpool] at hlast'
    cases hlast.symm.trans hlast'
    exact recycled_roadPart hroad left right t last
  | hit o other =>
    rcases onCollisionBoxOverlap_eq_ok.mp hstep with ⟨hmiss, rfl⟩ | ⟨hmeets, rfl⟩ <;>
      rcases onCollisionBoxOverlap_eq_ok.mp hstep' with ⟨hmiss', rfl⟩ | ⟨hmeets', rfl⟩
    · rcases hp with rfl | rfl <;> exact h _ (by simp [Event.reads])
    · simp [hmeets'] at hmiss
    · simp [hmeets] at hmiss'
    · rcases hp with rfl | rfl
      · exact struck_roadPart (h .road (by simp [Event.reads])) o
      · exact struck_shieldPart (h .config (by simp [Event.reads])) (h .shield (by simp [Event.reads])) o
  | toggleInvincibility value =>
    cases hp
    cases hstep
    cases hstep'
    exact toggle_shieldPart (h .config (by simp [Event.reads])) (h .shield (by simp [Event.reads])) value
  | collectGarbage =>
    cases hp
    cases hstep
    cases hstep'
    exact collectGarbage_roadPart (h .road (by simp [Event.reads]))
  | advance d =>
    cases hp
    cases hstep
    cases hstep'
    have hshield : v.shieldPart = w.shieldPart := h .shield (by simp [Event.reads])
    show ShieldPart.mk _ _ _ (v.time + d) _ = ShieldPart.mk _ _ _ (w.time + d) _
    simp only [shieldPart, ShieldPart.mk.injEq] at hshield
    simp only [hshield]
  | fire i =>
    cases hp
    have hshield : v.shieldPart = w.shieldPart := h .shield (by simp [Event.reads])
    obtain ⟨τ, hτ, _⟩ : ∃ τ, w.timers[i]? = some τ ∧ τ.due = w.time := hw.1
    have hτ' : v.timers[i]? = some τ := by
      rw [show v.timers = w.timers from congrArg ShieldPart.timers hshield]
      exact hτ
    have hfire : w.fireTimer i = .ok w' := hstep
    have hfire' : v.fireTimer i = .ok v' := hstep'
    rw [fireTimer_eq hτ] at hfire
    rw [fireTimer_eq hτ'] at hfire'
    split at hfire
    · split at hfire'
      · cases hfire
        cases hfire'
        exact fired_shieldPart hshield i τ.action
      · cases hfire'
    · cases hfire

/-- **The table holds.** -/
def footprint (K : Type) [Field K] [LinearOrder K] : Footprint (game K) (Part.View K) where
  view := view
  injective := view_injective
  writes := Event.writes
  needs := Event.needs
  reads := Event.reads
  frame hs hp := view_step hs hp
  taken hs h := exists_step_of_view hs h
  value hs hs' hp h := view_step_congr hs hs' hp h

end World

end EndlessRunner
