import EndlessRunner.Laws.Lanes
import EndlessRunner.Laws.Road
import EndlessRunner.Laws.Speed

/-!
# Frames

A frame of the game is its `Tick`s, its motion, and the recycles of the tiles whose trigger boxes are then found to
overlap the player's (`World.PlayFrame`); a play is one frame after the other. What else happens in a frame, at
whatever place in it, leaves the road as it is (`World.SameWay`). So the motion takes every tile back by the distance
that the new speed covers (`World.motion_facts`), and only what is recycled goes elsewhere (`World.recycles_facts`).
-/

set_option autoImplicit false

namespace EndlessRunner

open Lib (Machine Piece Strip)
open Lib.Rounding

variable {K : Type} [Field K]

/-- The event hands a tile to `RecycleTile`. -/
def Event.Recycles {K : Type} : Event K → Prop
  | .recycle _ _ _ => True
  | _ => False

/-- The event leaves the road as it is, and what moves it: it is the player's, an obstacle's or a timer's. -/
def Event.LeavesRoad {K : Type} : Event K → Prop
  | .move _ | .switchToLane _ | .hit _ _ | .toggleInvincibility _ | .collectGarbage | .advance _ | .fire _ => True
  | _ => False

/-! ## Recycled tiles -/

theorem mem_recycledTiles {K : Type} {t : TileId} {es : List (Event K)} :
    t ∈ recycledTiles es ↔ ∃ left right, Event.recycle t left right ∈ es := by
  induction es with
  | nil => simp [recycledTiles]
  | cons e es ih =>
    rw [recycledTiles_cons, List.mem_append, ih]
    cases e with
    | recycle s left right =>
      simp only [recycledTiles, List.mem_cons, List.not_mem_nil, or_false, Event.recycle.injEq]
      constructor
      · rintro (rfl | ⟨left', right', hmem⟩)
        · exact ⟨left, right, .inl ⟨rfl, rfl, rfl⟩⟩
        · exact ⟨left', right', .inr hmem⟩
      · rintro ⟨left', right', ⟨rfl, _⟩ | hmem⟩
        · exact .inl rfl
        · exact .inr ⟨left', right', hmem⟩
    | _ => simp [recycledTiles]

theorem recycledTiles_append {K : Type} (es fs : List (Event K)) :
    recycledTiles (es ++ fs) = recycledTiles es ++ recycledTiles fs := by
  induction es with
  | nil => rfl
  | cons e es ih => rw [List.cons_append, recycledTiles_cons, ih, recycledTiles_cons e es, List.append_assoc]

theorem recycledTiles_eq_nil {K : Type} {es : List (Event K)} (hes : ∀ e ∈ es, ¬ e.Recycles) :
    recycledTiles es = [] := by
  apply List.eq_nil_iff_forall_not_mem.mpr
  intro t ht
  obtain ⟨left, right, hmem⟩ := mem_recycledTiles.mp ht
  exact hes _ hmem trivial

/-- The tiles that the frames recycle, in their order. -/
def recycledInTurn {K : Type} (fs : List (K × List (Event K))) : List TileId := fs.flatMap fun f => recycledTiles f.2

/-! ## Distances -/

section Steps

/-- How far the road moves in each frame, from the speed before the first and the frames' lengths. -/
def steps (float : K → K) (speed increase : K) : List K → List K
  | [] => []
  | dt :: dts => float (speed + increase) * dt :: steps float (float (speed + increase)) increase dts

theorem steps_append (float : K → K) (speed increase : K) (dts dts' : List K) :
    steps float speed increase (dts ++ dts') =
      steps float speed increase dts ++ steps float (grown float speed increase dts.length) increase dts' := by
  induction dts generalizing speed with
  | nil => rfl
  | cons dt dts ih =>
    rw [List.cons_append, steps, ih, steps, List.cons_append]
    rfl

theorem mem_steps {float : K → K} {speed increase d : K} {dts : List K} :
    d ∈ steps float speed increase dts ↔
      ∃ (k : ℕ) (dt : K), dts[k]? = some dt ∧ d = grown float speed increase (k + 1) * dt := by
  induction dts generalizing speed with
  | nil => simp [steps]
  | cons dt dts ih =>
    rw [steps, List.mem_cons, ih]
    constructor
    · rintro (rfl | ⟨k, dt', hk, rfl⟩)
      · exact ⟨0, dt, rfl, rfl⟩
      · exact ⟨k + 1, dt', hk, rfl⟩
    · rintro ⟨k, dt', hk, rfl⟩
      cases k with
      | zero =>
        cases hk
        exact .inl rfl
      | succ k => exact .inr ⟨k, dt', hk, rfl⟩

/-- At a speed that is positive and grows, every frame moves the road. -/
theorem steps_pos [LinearOrder K] [IsStrictOrderedRing K] {float : K → K} {speed increase : K}
    (hround : IsRounding float) (hstored : float speed = speed) (hspeed : 0 < speed) (hincrease : 0 ≤ increase)
    {dts : List K} (hpos : ∀ dt ∈ dts, 0 < dt) : ∀ d ∈ steps float speed increase dts, 0 < d := by
  intro d hd
  obtain ⟨k, dt, hk, rfl⟩ := mem_steps.mp hd
  have hgrown := hround.grown_mono hstored hincrease (Nat.zero_le (k + 1))
  exact mul_pos (hspeed.trans_le hgrown) (hpos dt (List.mem_of_getElem? hk))

end Steps

namespace World

variable {w w' : World K}

/-- How far frames of these lengths are going to move the road. -/
def stepsAhead (w : World K) (dts : List K) : List K :=
  steps w.gameMode.float w.gameMode.speed w.gameMode.speedIncrease dts

theorem nextSpeed_congr (hconfig : w'.configPart = w.configPart) (hspeed : w'.gameMode.speed = w.gameMode.speed) :
    w'.nextSpeed = w.nextSpeed := by
  obtain ⟨hfloat, hincrease⟩ := increase_of_config hconfig
  rw [nextSpeed, nextSpeed, hfloat, hincrease, hspeed]

/-- The first step, and those from the world that the first frame leaves. -/
theorem stepsAhead_cons (hconfig : w'.configPart = w.configPart) (hspeed : w'.gameMode.speed = w.nextSpeed) (dt : K)
    (dts : List K) : w.stepsAhead (dt :: dts) = w.nextSpeed * dt :: w'.stepsAhead dts := by
  obtain ⟨hfloat, hincrease⟩ := increase_of_config hconfig
  rw [stepsAhead, stepsAhead, hfloat, hincrease, hspeed]
  rfl

/-- The speed after the first frame, and after `n` more. -/
theorem grown_next (hconfig : w'.configPart = w.configPart) (hspeed : w'.gameMode.speed = w.nextSpeed) (n : ℕ) :
    grown w'.gameMode.float w'.gameMode.speed w'.gameMode.speedIncrease n =
      grown w.gameMode.float w.gameMode.speed w.gameMode.speedIncrease (n + 1) := by
  obtain ⟨hfloat, hincrease⟩ := increase_of_config hconfig
  rw [hfloat, hincrease, hspeed]
  rfl

/-! ## What leaves the road as it is -/

/-- What the motion of the road depends on is the same. -/
structure SameWay (w w' : World K) : Prop where
  config : w'.configPart = w.configPart
  speed : w'.gameMode.speed = w.gameMode.speed
  velocity : w'.groundTilesParent.physicsLinearVelocity = w.groundTilesParent.physicsLinearVelocity
  groundTiles : w'.gameMode.groundTiles = w.gameMode.groundTiles
  numTiles : w'.numTiles = w.numTiles
  bare : ∀ t, (w'.tiles t).bare = (w.tiles t).bare
  location_x : w'.character.location.x = w.character.location.x

theorem SameWay.refl (w : World K) : SameWay w w := ⟨rfl, rfl, rfl, rfl, rfl, fun _ => rfl, rfl⟩

theorem SameWay.trans {u v w : World K} (h : SameWay u v) (h' : SameWay v w) : SameWay u w :=
  ⟨h'.config.trans h.config, h'.speed.trans h.speed, h'.velocity.trans h.velocity,
    h'.groundTiles.trans h.groundTiles, h'.numTiles.trans h.numTiles, fun t => (h'.bare t).trans (h.bare t),
    h'.location_x.trans h.location_x⟩

theorem SameWay.triggerOffset (h : SameWay w w') (t : TileId) : w'.triggerOffset t = w.triggerOffset t := by
  have htransform : (w'.tiles t).triggerTransform = (w.tiles t).triggerTransform :=
    GroundTile.congr_bare (f := GroundTile.triggerTransform) (fun _ => rfl) (h.bare t)
  rw [World.triggerOffset, World.triggerOffset, htransform, h.location_x]

theorem SameWay.pool (h : SameWay w w') {ids : List TileId} (hpool : Pool w ids) :
    Pool w' ids ∧ w'.strip ids = w.strip ids := by
  refine ⟨⟨h.groundTiles.trans hpool.groundTiles, hpool.nodup, ?_, ?_⟩, ?_⟩
  · rw [h.numTiles]
    exact hpool.mem_iff
  · intro t ht
    rw [GroundTile.congr_bare (f := GroundTile.attached) (fun _ => rfl) (h.bare t)]
    exact hpool.attached t ht
  · apply List.map_congr_left
    intro t _
    exact GroundTile.congr_bare (f := fun tile => Piece.mk t tile.location
      (tile.attachTransform.translation - tile.location)) (fun _ => rfl) (h.bare t)

variable [LinearOrder K]

theorem sameWay_step {e : Event K} (hs : (game K).Step w e w') (he : e.LeavesRoad) : SameWay w w' := by
  have hspeed : w'.gameMode.speed = w.gameMode.speed :=
    view_step hs (p := .speed) (by cases e <;> simp [Event.writes, Event.LeavesRoad] at he ⊢)
  have hvelocity : w'.groundTilesParent.physicsLinearVelocity = w.groundTilesParent.physicsLinearVelocity :=
    view_step hs (p := .velocity) (by cases e <;> simp [Event.writes, Event.LeavesRoad] at he ⊢)
  have hx : w'.character.location.x = w.character.location.x := by
    cases e with
    | move v =>
      rcases move_cases hs.2 with rfl | rfl
      · rfl
      · obtain ⟨can, hlock⟩ := lockLanes_frame (w.steered v)
        rw [hlock]
        rfl
    | switchToLane i =>
      obtain ⟨can, hlock⟩ := lockLanes_frame w
      rw [switchToLane_eq_ok hs.2, hlock]
    | tick dt => exact he.elim
    | _ =>
      have hlanes : w'.lanesPart = w.lanesPart := view_step hs (p := .lanes) (by simp [Event.writes])
      exact congrArg (fun l => l.location.x) hlanes
  rcases roadStep_cases hs with ⟨_, v, hsame, honly⟩ | ⟨d, hd, _⟩ | ⟨spawned, _, rfl, _⟩ | ⟨t, left, right, _, rfl, _⟩
  · refine ⟨config_step hs, hspeed, hvelocity, ?_, honly.numTiles.trans hsame.numTiles, ?_, hx⟩
    · rw [honly.gameMode, hsame.groundTiles]
    · intro t
      rw [honly.bare, hsame.tiles]
  · rcases hd with rfl | ⟨dt, rfl, _⟩ <;> exact he.elim
  · exact he.elim
  · exact he.elim

theorem sameWay_run {es : List (Event K)} (hr : (game K).Run w es w') (hes : ∀ e ∈ es, e.LeavesRoad) :
    SameWay w w' := by
  induction hr with
  | nil w => exact .refl w
  | cons hs _ ih =>
    obtain ⟨he, hrest⟩ := List.forall_mem_cons.mp hes
    exact (sameWay_step hs he).trans (ih hrest)

/-! ## Boxes keep their size -/

theorem triggerReach_step {e : Event K} (hs : (game K).Step w e w') (hspawn : ¬ e.Spawns) (t : TileId) :
    w'.triggerReach t = w.triggerReach t := by
  suffices hscale : (w'.tiles t).triggerTransform.scale3D = (w.tiles t).triggerTransform.scale3D by
    rw [triggerReach, triggerReach, FTransform.triggerReach, FTransform.triggerReach, hscale]
  have hbare : ∀ {u v : World K}, (v.tiles t).bare = (u.tiles t).bare →
      (v.tiles t).triggerTransform.scale3D = (u.tiles t).triggerTransform.scale3D := fun h =>
    GroundTile.congr_bare (f := fun tile => tile.triggerTransform.scale3D) (fun _ => rfl) h
  rcases roadStep_cases hs with ⟨_, v, hsame, honly⟩ | ⟨d, _, rfl⟩ | ⟨spawned, _, rfl, _⟩ |
    ⟨s, left, right, last, _, _, _, honly⟩
  · rw [hbare (honly.bare t), hsame.tiles]
  · show ((w.tiles t).moveBy d).triggerTransform.scale3D = _
    unfold GroundTile.moveBy
    split <;> rfl
  · exact absurd trivial hspawn
  · rw [hbare (honly.bare t)]
    by_cases hts : t = s
    · rw [hts, tiles_toEnd_self]
      rfl
    · rw [tiles_toEnd_of_ne w last hts]

theorem triggerReach_run {es : List (Event K)} (hr : (game K).Run w es w') (hes : ∀ e ∈ es, ¬ e.Spawns) (t : TileId) :
    w'.triggerReach t = w.triggerReach t := by
  induction hr with
  | nil w => rfl
  | cons hs _ ih =>
    obtain ⟨he, hrest⟩ := List.forall_mem_cons.mp hes
    exact (ih hrest).trans (triggerReach_step hs he t)

/-! ## Plays -/

/-- One frame of the game, with its events: the game mode's `Tick`, the ground parent's, and its motion. Then the tiles
whose boxes overlap the player's, and no others, are recycled, once each and in any order. Before, between and after
these the player may steer, obstacles may be hit, timers may fire and garbage may be collected. -/
def PlayFrame (dt : K) (es : List (Event K)) (w w' : World K) : Prop :=
  ∃ es₁ es₂ es₃ es₄ v, es = es₁ ++ .tick dt :: (es₂ ++ .groundTick :: (es₃ ++ [.physics dt])) ++ es₄ ∧
    (game K).Run w (es₁ ++ .tick dt :: (es₂ ++ .groundTick :: (es₃ ++ [.physics dt]))) v ∧
    (∀ e ∈ es₁ ++ es₂ ++ es₃, e.LeavesRoad) ∧ (game K).Run v es₄ w' ∧ (∀ e ∈ es₄, e.LeavesRoad ∨ e.Recycles) ∧
    (recycledTiles es₄).Nodup ∧ ∀ t, t ∈ recycledTiles es₄ ↔ some t ∈ v.gameMode.groundTiles ∧ v.Overlaps t

/-- Frame after frame, each with its length and its events. -/
inductive Play : World K → List (K × List (Event K)) → World K → Prop
  | nil (w : World K) : Play w [] w
  | cons {w u w' : World K} {dt : K} {es : List (Event K)} {fs : List (K × List (Event K))} :
      PlayFrame dt es w u → Play u fs w' → Play w ((dt, es) :: fs) w'

omit [Field K] [LinearOrder K] in
/-- Up to the end of its motion a frame neither spawns nor recycles. -/
theorem motion_moves_only {es₁ es₂ es₃ : List (Event K)} (dt : K) (hes : ∀ e ∈ es₁ ++ es₂ ++ es₃, e.LeavesRoad) :
    ∀ e ∈ es₁ ++ .tick dt :: (es₂ ++ .groundTick :: (es₃ ++ [.physics dt])), ¬ e.Spawns ∧ ¬ e.Recycles := by
  have hother : ∀ e : Event K, e.LeavesRoad → ¬ e.Spawns ∧ ¬ e.Recycles := by
    intro e he
    cases e <;> first | exact he.elim | exact ⟨id, id⟩
  intro e he
  simp only [List.mem_append, List.mem_cons, List.not_mem_nil, or_false] at he hes
  rcases he with he | rfl | he | rfl | he | rfl
  · exact hother e (hes e (.inl (.inl he)))
  · exact ⟨id, id⟩
  · exact hother e (hes e (.inl (.inr he)))
  · exact ⟨id, id⟩
  · exact hother e (hes e (.inr he))
  · exact ⟨id, id⟩

/-- A frame is a run, and spawns no tile. -/
theorem PlayFrame.run {dt : K} {es : List (Event K)} (h : PlayFrame dt es w w') :
    (game K).Run w es w' ∧ ∀ e ∈ es, ¬ e.Spawns := by
  obtain ⟨es₁, es₂, es₃, es₄, v, rfl, hmotion, hothers, hrecycles, hes, _⟩ := h
  refine ⟨hmotion.append hrecycles, ?_⟩
  intro e he
  rcases List.mem_append.mp he with he | he
  · exact (motion_moves_only dt hothers e he).1
  · intro hspawn
    rcases hes e he with hleaves | hrecycle <;> cases e <;> first | exact hspawn | exact hleaves | exact hrecycle

theorem Play.run {fs : List (K × List (Event K))} (h : Play w fs w') :
    (game K).Run w (fs.flatMap Prod.snd) w' ∧ ∀ e ∈ fs.flatMap Prod.snd, ¬ e.Spawns := by
  induction h with
  | nil w => exact ⟨.nil w, fun e he => absurd he List.not_mem_nil⟩
  | cons hframe _ ih =>
    obtain ⟨hrun, hes⟩ := hframe.run
    rw [List.flatMap_cons]
    exact ⟨hrun.append ih.1, fun e he => (List.mem_append.mp he).elim (hes e) (ih.2 e)⟩

/-- The motion of a frame can always be played. -/
theorem OnLanes.exists_motion (h : OnLanes w) (dt : K) :
    ∃ v, (game K).Run w [.tick dt, .groundTick, .physics dt] v ∧ OnLanes v := by
  obtain ⟨u, hu⟩ := h.exists_tick dt
  obtain ⟨h₁, h₂, h₃, h₄, h₅⟩ := h.tick hu
  refine ⟨u.groundTick.physics dt, ?_, h₁, h₂, h₃, h₄, h₅⟩
  exact .cons ⟨trivial, hu⟩ (.cons ⟨trivial, rfl⟩ (Machine.run_singleton.mpr ⟨trivial, rfl⟩))

/-! ## What a frame does -/

omit [LinearOrder K] in
/-- How a tile of the pool moves with the ground parent. -/
theorem triggerOffset_physics {ids : List TileId} (hpool : Pool w ids) (dt : K) {t : TileId} (ht : t ∈ ids) :
    (w.physics dt).triggerOffset t =
      w.triggerOffset t + dt * w.groundTilesParent.physicsLinearVelocity.x := by
  show ((w.tiles t).moveBy (dt • w.groundTilesParent.physicsLinearVelocity)).triggerTransform.translation.x -
    w.character.location.x = _
  rw [GroundTile.triggerTransform_moveBy (hpool.attached t ht)]
  simp only [triggerOffset, FTransform.translate_translation, FVector.add_x, FVector.smul_x]
  ring

/-- **The motion of a frame takes every tile of the pool back by the distance the new speed covers**, whatever
happens meanwhile. -/
theorem motion_facts {v : World K} {dt : K} {ids : List TileId} {es₁ es₂ es₃ : List (Event K)}
    (hpool : Pool w ids)
    (hrun : (game K).Run w (es₁ ++ .tick dt :: (es₂ ++ .groundTick :: (es₃ ++ [.physics dt]))) v)
    (hes : ∀ e ∈ es₁ ++ es₂ ++ es₃, e.LeavesRoad) :
    Pool v ids ∧ v.numTiles = w.numTiles ∧ v.gameMode.speed = w.nextSpeed ∧
      ∀ t ∈ ids, v.triggerOffset t = w.triggerOffset t - w.nextSpeed * dt := by
  have hes₁ : ∀ e ∈ es₁, e.LeavesRoad := fun e he => hes e (by simp [he])
  have hes₂ : ∀ e ∈ es₂, e.LeavesRoad := fun e he => hes e (by simp [he])
  have hes₃ : ∀ e ∈ es₃, e.LeavesRoad := fun e he => hes e (by simp [he])
  obtain ⟨w₁, hr₁, hrest₁⟩ := Machine.run_append.mp hrun
  obtain ⟨w₂, htick, hrest₂⟩ := Machine.run_cons.mp hrest₁
  obtain ⟨w₃, hr₃, hrest₃⟩ := Machine.run_append.mp hrest₂
  obtain ⟨w₄, hground, hrest₄⟩ := Machine.run_cons.mp hrest₃
  obtain ⟨w₅, hr₅, hphysics⟩ := Machine.run_append.mp hrest₄
  cases hground.2
  cases (Machine.run_singleton.mp hphysics).2
  have h₁ := sameWay_run hr₁ hes₁
  have h₃ := sameWay_run hr₃ hes₂
  have h₅ := sameWay_run hr₅ hes₃
  have hroad := sameRoad_tick htick.2
  have hspeed₃ : w₃.gameMode.speed = w.nextSpeed := by
    rw [h₃.speed, tick_speed htick.2, nextSpeed_congr h₁.config h₁.speed]
  have hpool₃ := (h₃.pool ((h₁.pool hpool).1.of_sameRoad hroad).1).1
  have hpool₅ := (h₅.pool (hpool₃.of_sameRoad (sameRoad_step hground trivial)).1).1
  have hoffset : ∀ t, w₃.triggerOffset t = w.triggerOffset t := by
    intro t
    have htile : w₂.triggerOffset t = w₁.triggerOffset t := by
      rw [triggerOffset, triggerOffset, hroad.tiles, (tick_location htick.2).1]
    rw [h₃.triggerOffset, htile, h₁.triggerOffset]
  have hvelocity : w₅.groundTilesParent.physicsLinearVelocity.x = -w₃.gameMode.speed := by
    rw [h₅.velocity]
    show (-(w₃.gameMode.speed • (⟨1, 0, 0⟩ : FVector K))).x = _
    simp
  refine ⟨(hpool₅.translateGround _).1, ?_, h₅.speed.trans hspeed₃, ?_⟩
  · exact h₅.numTiles.trans (h₃.numTiles.trans (hroad.numTiles.trans h₁.numTiles))
  · intro t ht
    rw [triggerOffset_physics hpool₅ dt ht, h₅.triggerOffset, hvelocity, hspeed₃]
    show w₃.triggerOffset t + _ = _
    rw [hoffset]
    ring

/-- **Recycling leaves every other tile where it is.** -/
theorem recycles_facts {es : List (Event K)} (hr : (game K).Run w es w') : (∃ ids, Pool w ids) →
    (∀ e ∈ es, e.LeavesRoad ∨ e.Recycles) →
      (∃ ids, Pool w' ids) ∧ w'.numTiles = w.numTiles ∧ w'.gameMode.speed = w.gameMode.speed ∧
        ∀ t, t ∉ recycledTiles es → w'.triggerOffset t = w.triggerOffset t := by
  induction hr with
  | nil w => exact fun hpool _ => ⟨hpool, rfl, rfl, fun _ _ => rfl⟩
  | @cons w u w' e es hs _ ih =>
    intro hpool hall
    obtain ⟨he, hes⟩ := List.forall_mem_cons.mp hall
    obtain ⟨hpool', hnum, hspeed, hoffset⟩ := ih (Pool.exists_step hpool hs) hes
    obtain ⟨hnum₁, hspeed₁, hoffset₁⟩ : u.numTiles = w.numTiles ∧ u.gameMode.speed = w.gameMode.speed ∧
        ∀ t, t ∉ recycledTiles [e] → u.triggerOffset t = w.triggerOffset t := by
      rcases he with hleaves | hrecycles
      · have hsame := sameWay_step hs hleaves
        exact ⟨hsame.numTiles, hsame.speed, fun t _ => hsame.triggerOffset t⟩
      · cases e with
        | recycle s left right =>
          obtain ⟨_, _, last, _, rfl⟩ := recycleTile_eq_ok.mp hs.2
          have honly := recycled_onlyObstacles w left right s last
          refine ⟨honly.numTiles, by rw [honly.gameMode]; rfl, ?_⟩
          intro t ht
          have hts : t ≠ s := fun heq => ht (List.mem_singleton.mpr heq)
          have hbare : (w.tiles t).triggerTransform = ((w.recycled left right s last).tiles t).triggerTransform := by
            refine GroundTile.congr_bare (f := GroundTile.triggerTransform) (fun _ => rfl) ?_
            rw [honly.bare, tiles_toEnd_of_ne w last hts]
          rw [triggerOffset, triggerOffset, hbare, honly.character]
          rfl
        | _ => exact hrecycles.elim
    refine ⟨hpool', hnum.trans hnum₁, hspeed.trans hspeed₁, ?_⟩
    intro t ht
    rw [recycledTiles_cons, List.mem_append, not_or] at ht
    rw [hoffset t ht.2, hoffset₁ t ht.1]

/-- **A frame takes each tile that it does not recycle back by its step**, to a place where it is not seen. -/
theorem PlayFrame.facts {dt : K} {es : List (Event K)} (h : PlayFrame dt es w w') (hpool : ∃ ids, Pool w ids) :
    (∃ ids, Pool w' ids) ∧ w'.numTiles = w.numTiles ∧ w'.gameMode.speed = w.nextSpeed ∧
      ∀ t < w.numTiles, t ∉ recycledTiles es →
        w'.triggerOffset t = w.triggerOffset t - w.nextSpeed * dt ∧ ¬ w'.Overlaps t := by
  obtain ⟨_, hquiet⟩ := h.run
  obtain ⟨es₁, es₂, es₃, es₄, v, rfl, hmotion, hothers, hrecycles, hes, _, hmem⟩ := h
  obtain ⟨ids, hids⟩ := hpool
  obtain ⟨hids', hnum, hspeed, hback⟩ := motion_facts hids hmotion hothers
  obtain ⟨hpool', hnum', hspeed', hstay⟩ := recycles_facts hrecycles ⟨ids, hids'⟩ hes
  refine ⟨hpool', hnum'.trans hnum, hspeed'.trans hspeed, ?_⟩
  intro t ht hnot
  rw [recycledTiles_append, List.mem_append, not_or] at hnot
  have hoffset := hstay t hnot.2
  refine ⟨hoffset.trans (hback t ((hids.mem_iff t).mpr ht)), ?_⟩
  have hreach : w'.triggerReach t = v.triggerReach t :=
    triggerReach_run hrecycles (fun e he => hquiet e (List.mem_append_right _ he)) t
  rw [Overlaps, hoffset, hreach]
  intro hinside
  exact hnot.2 ((hmem t).mpr ⟨(Pool.mem_groundTiles ⟨ids, hids'⟩).mpr (hnum ▸ ht), hinside⟩)

theorem PlayFrame.stepsAhead {dt : K} {es : List (Event K)} (h : PlayFrame dt es w w') (hpool : ∃ ids, Pool w ids)
    (dts : List K) : w.stepsAhead (dt :: dts) = w.nextSpeed * dt :: w'.stepsAhead dts :=
  stepsAhead_cons (config_run h.run.1) (h.facts hpool).2.2.1 dt dts

end World

end EndlessRunner
