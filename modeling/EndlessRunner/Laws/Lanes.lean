import EndlessRunner.Laws.Frames

/-!
# The lane controller

The lane state is split over two classes: the runner's `Move` writes the index, the game mode's `Tick` reads
it, owns the flag and moves the player. `OnLanes` links the three, and each of `Move` and the two branches of
`Tick` restores it.

`threeLanes` says what the controller is for: the runner stands on one of three lanes or is on the way to it,
steers only while standing, and arrives. The game refines it (`laneRun_refines`), and `lanes_refine` puts
together what that comes to for the fields of the source.
-/

set_option autoImplicit false

namespace EndlessRunner

open Lib (Machine)

/-! ## The three-lane machine -/

/-- One of the three lanes, by its index. -/
structure LaneNumber where
  val : ℤ
  nonneg : 0 ≤ val
  le_two : val ≤ 2

/-- One lane to the side, and no further than the outermost. -/
def LaneNumber.shift (n : LaneNumber) (direction : ℤ) : LaneNumber where
  val := clamp (n.val + direction) 0 2
  nonneg := (clamp_mem _ (by decide)).1
  le_two := (clamp_mem _ (by decide)).2

/-- The runner stands on a lane, or is on the way to it. -/
structure ThreeLanes where
  lane : LaneNumber
  settled : Bool

/-- What happens to it. -/
inductive LaneInput
  | steer (direction : ℤ)
  | arrive
deriving DecidableEq

/-- The three-lane machine: only a settled runner steers, and only one on the way arrives. -/
def threeLanes : Machine ThreeLanes LaneInput Empty where
  enabled s
    | .steer _ => s.settled = true
    | .arrive => s.settled = false
  step s
    | .steer direction => .ok ⟨s.lane.shift direction, false⟩
    | .arrive => .ok ⟨s.lane, true⟩

variable {K : Type} [Field K] [LinearOrder K]

/-- The events that steer and switch: the runner's `Move` and the game mode's `Tick`. -/
def Event.IsLaneEvent : Event K → Prop
  | .move _ => True
  | .tick _ => True
  | _ => False

/-- The game limited to `Move` and `Tick`. -/
def laneGame (K : Type) [Field K] [LinearOrder K] : Machine (World K) (Event K) Fault :=
  (game K).restrict fun _ e => e.IsLaneEvent

namespace World

/-- Index, flag and position agree. -/
structure OnLanes (w : World K) : Prop where
  player : w.gameMode.player.isSome = true
  nonneg : 0 ≤ w.gameMode.currentLaneIndex
  le_two : w.gameMode.currentLaneIndex ≤ 2
  inRange : 2 < w.gameMode.laneSwitchValues.length
  settled : w.gameMode.canSwitchLanes = true →
    TArray.get w.gameMode.laneSwitchValues w.gameMode.currentLaneIndex = .ok w.character.location.y

omit [LinearOrder K] in
theorem OnLanes.exists_value {w : World K} (h : OnLanes w) {i : ℤ} (h0 : 0 ≤ i) (h2 : i ≤ 2) :
    ∃ y, TArray.get w.gameMode.laneSwitchValues i = .ok y :=
  TArray.exists_get h0 (lt_of_le_of_lt h2 (by exact_mod_cast h.inRange))

/-! ## `Tick` -/

theorem OnLanes.tick {w w' : World K} {dt : K} (h : OnLanes w) (ht : w.tick dt = .ok w') : OnLanes w' := by
  rcases tick_cases ht with ⟨_, rfl⟩ | ⟨hswitching, y, hy, rfl | rfl⟩
  · exact ⟨h.player, h.nonneg, h.le_two, h.inRange, h.settled⟩
  · exact ⟨h.player, h.nonneg, h.le_two, h.inRange, fun _ => hy⟩
  · refine ⟨h.player, h.nonneg, h.le_two, h.inRange, fun hcan => ?_⟩
    have hlocked : w.gameMode.canSwitchLanes = false := by
      simpa only [h.player, Bool.true_and, Bool.not_eq_true'] using hswitching
    exact absurd (hlocked.symm.trans hcan) Bool.false_ne_true

/-- `Tick` indexes the lane values in range. -/
theorem OnLanes.exists_tick {w : World K} (h : OnLanes w) (dt : K) : ∃ w', w.tick dt = .ok w' := by
  obtain ⟨y, hy⟩ := h.exists_value h.nonneg h.le_two
  cases hs : w.gameMode.player.isSome && !w.gameMode.canSwitchLanes with
  | true => exact ⟨_, tick_eq_ok.mpr (.inl ⟨hs, y, hy, rfl⟩)⟩
  | false => exact ⟨_, tick_eq_ok.mpr (.inr ⟨hs, rfl⟩)⟩

/-- `Tick` moves the player across the lanes only. -/
theorem tick_location {w w' : World K} {dt : K} (ht : w.tick dt = .ok w') :
    w'.character.location.x = w.character.location.x ∧
      w'.character.location.z = w.character.location.z := by
  rcases tick_cases ht with ⟨_, rfl⟩ | ⟨_, y, _, rfl | rfl⟩
  · exact ⟨rfl, rfl⟩
  · exact ⟨rfl, rfl⟩
  · simp [FVector.lerp, laneTarget]

/-! ## `Move` -/

/-- A `Move` during a switch, or without a controller, is ignored. -/
theorem move_ignored {w : World K} (h : ¬ (w.character.hasController = true ∧ w.gameMode.canSwitchLanes = true))
    (v : FVector2D K) : w.move v = .ok w := by
  rw [move_eq, if_neg h]

/-- A `Move` that is taken steers, and starts a switch. -/
theorem OnLanes.move_taken {w : World K} (h : OnLanes w) (hctrl : w.character.hasController = true)
    (hcan : w.gameMode.canSwitchLanes = true) (v : FVector2D K) :
    w.move v = .ok { w.steered v with gameMode.canSwitchLanes := false } := by
  obtain ⟨hlo, hhi⟩ :=
    clamp_mem (w.gameMode.currentLaneIndex + sign v.x) (show (0 : ℤ) ≤ 2 by decide)
  obtain ⟨y, hy⟩ := h.exists_value hlo hhi
  have hlock : ((w.steered v).gameMode.player.isSome && (w.steered v).gameMode.canSwitchLanes) = true := by
    show (w.gameMode.player.isSome && w.gameMode.canSwitchLanes) = true
    rw [h.player, hcan]
    rfl
  rw [move_eq, if_pos ⟨hctrl, hcan⟩, hy, ok_bind, lockLanes, if_pos hlock]

theorem OnLanes.exists_move {w : World K} (h : OnLanes w) (v : FVector2D K) : ∃ w', w.move v = .ok w' := by
  by_cases hc : w.character.hasController = true ∧ w.gameMode.canSwitchLanes = true
  · exact ⟨_, h.move_taken hc.1 hc.2 v⟩
  · exact ⟨w, move_ignored hc v⟩

theorem OnLanes.move {w w' : World K} {v : FVector2D K} (h : OnLanes w) (hm : w.move v = .ok w') :
    OnLanes w' := by
  by_cases hc : w.character.hasController = true ∧ w.gameMode.canSwitchLanes = true
  · cases (h.move_taken hc.1 hc.2 v).symm.trans hm
    obtain ⟨hlo, hhi⟩ :=
      clamp_mem (w.gameMode.currentLaneIndex + sign v.x) (show (0 : ℤ) ≤ 2 by decide)
    exact ⟨h.player, hlo, hhi, h.inRange, fun hcan => absurd hcan Bool.false_ne_true⟩
  · cases (move_ignored hc v).symm.trans hm
    exact h

/-! ## Runs of `Move` and `Tick` -/

theorem laneStep_cases {w w' : World K} {e : Event K} (h : (laneGame K).Step w e w') :
    (∃ dt, e = .tick dt ∧ w.tick dt = .ok w') ∨ (∃ v, e = .move v ∧ w.move v = .ok w') := by
  obtain ⟨⟨_, hstep⟩, hlane⟩ := Machine.restrict_step.mp h
  cases e with
  | tick dt => exact .inl ⟨dt, rfl, hstep⟩
  | move v => exact .inr ⟨v, rfl, hstep⟩
  | _ => exact hlane.elim

theorem OnLanes.step {w w' : World K} {e : Event K} (h : OnLanes w) (hs : (laneGame K).Step w e w') :
    OnLanes w' := by
  rcases laneStep_cases hs with ⟨_, rfl, ht⟩ | ⟨_, rfl, hm⟩
  · exact h.tick ht
  · exact h.move hm

theorem OnLanes.run {w w' : World K} {es : List (Event K)} (h : OnLanes w)
    (hr : (laneGame K).Run w es w') : OnLanes w' :=
  hr.invariant (fun _ _ _ hs hw => hw.step hs) h

/-- Neither event is stopped by an index out of range. -/
theorem OnLanes.exists_step {w : World K} (h : OnLanes w) {e : Event K} (he : e.IsLaneEvent) :
    ∃ w', w.step e = .ok w' := by
  cases e with
  | tick dt => exact h.exists_tick dt
  | move v => exact h.exists_move v
  | _ => exact he.elim

/-- Nothing but the fault of a step keeps the engine from bringing a `Move` or a `Tick`. -/
theorem laneStep_of_step {w w' : World K} {e : Event K} (he : e.IsLaneEvent) (h : w.step e = .ok w') :
    (laneGame K).Step w e w' := by
  cases e with
  | tick dt => exact Machine.restrict_step.mpr ⟨⟨trivial, h⟩, trivial⟩
  | move v => exact Machine.restrict_step.mpr ⟨⟨trivial, h⟩, trivial⟩
  | _ => exact he.elim

/-- `Move`s and `Tick`s may come in any order and number. -/
theorem OnLanes.exists_run {w : World K} (h : OnLanes w) (es : List (Event K)) (hall : ∀ e ∈ es, e.IsLaneEvent) :
    ∃ u, (laneGame K).Run w es u := by
  induction es generalizing w with
  | nil => exact ⟨w, .nil w⟩
  | cons e es ih =>
    obtain ⟨hlane, hrest⟩ := List.forall_mem_cons.mp hall
    obtain ⟨v, hv⟩ := h.exists_step hlane
    have hs := laneStep_of_step hlane hv
    obtain ⟨u, hu⟩ := ih (h.step hs) hrest
    exact ⟨u, .cons hs hu⟩

theorem OnLanes.step_character {w w' : World K} {e : Event K} (h : OnLanes w)
    (hs : (laneGame K).Step w e w') :
    w'.character.location.x = w.character.location.x ∧
      w'.character.location.z = w.character.location.z ∧
      w'.character.hasController = w.character.hasController := by
  rcases laneStep_cases hs with ⟨dt, rfl, ht⟩ | ⟨v, rfl, hm⟩
  · refine ⟨(tick_location ht).1, (tick_location ht).2, ?_⟩
    rcases tick_cases ht with ⟨_, rfl⟩ | ⟨_, y, _, rfl | rfl⟩ <;> rfl
  · by_cases hc : w.character.hasController = true ∧ w.gameMode.canSwitchLanes = true
    · cases (h.move_taken hc.1 hc.2 v).symm.trans hm
      exact ⟨rfl, rfl, rfl⟩
    · cases (move_ignored hc v).symm.trans hm
      exact ⟨rfl, rfl, rfl⟩

/-- What the two events leave alone over a run: the player's place along the road and its height. -/
theorem OnLanes.run_character {w w' : World K} {es : List (Event K)} (h : OnLanes w)
    (hr : (laneGame K).Run w es w') :
    w'.character.location.x = w.character.location.x ∧
      w'.character.location.z = w.character.location.z ∧
      w'.character.hasController = w.character.hasController := by
  refine (hr.invariant (I := fun u => OnLanes u ∧ u.character.location.x = w.character.location.x ∧
    u.character.location.z = w.character.location.z ∧
    u.character.hasController = w.character.hasController) ?_ ⟨h, rfl, rfl, rfl⟩).2
  rintro u e v hs ⟨hu, hx, hz, hc⟩
  obtain ⟨hx', hz', hc'⟩ := hu.step_character hs
  exact ⟨hu.step hs, hx'.trans hx, hz'.trans hz, hc'.trans hc⟩

/-- The run without the `Move`s that arrive during a lane switch. -/
def withoutIgnored : World K → List (Event K) → List (Event K)
  | _, [] => []
  | w, .move v :: es =>
    if w.gameMode.canSwitchLanes = true then
      match w.move v with
      | .ok w' => .move v :: withoutIgnored w' es
      | .error _ => .move v :: es
    else withoutIgnored w es
  | w, e :: es =>
    match w.step e with
    | .ok w' => e :: withoutIgnored w' es
    | .error _ => e :: es

/-- Deleting them changes no state. -/
theorem run_withoutIgnored {w w' : World K} {es : List (Event K)} (h : (laneGame K).Run w es w') :
    (laneGame K).Run w (withoutIgnored w es) w' := by
  induction h with
  | nil w => exact .nil w
  | @cons w u w' e es hs _ ih =>
    rcases laneStep_cases hs with ⟨dt, rfl, ht⟩ | ⟨v, rfl, hm⟩
    · have hkeep : withoutIgnored w (.tick dt :: es) = .tick dt :: withoutIgnored u es := by
        simp only [withoutIgnored, step, ht]
      rw [hkeep]
      exact .cons hs ih
    · by_cases hcan : w.gameMode.canSwitchLanes = true
      · have hkeep : withoutIgnored w (.move v :: es) = .move v :: withoutIgnored u es := by
          simp only [withoutIgnored, if_pos hcan, hm]
        rw [hkeep]
        exact .cons hs ih
      · have hdrop : withoutIgnored w (.move v :: es) = withoutIgnored w es := by
          simp only [withoutIgnored, if_neg hcan]
        cases (move_ignored (fun hc => hcan hc.2) v).symm.trans hm
        rw [hdrop]
        exact ih

/-! ## The refinement -/

/-- The world's lane state is the abstract one. -/
def AtLane (w : World K) (s : ThreeLanes) : Prop :=
  w.gameMode.currentLaneIndex = s.lane.val ∧ w.gameMode.canSwitchLanes = s.settled

/-- What an event is to the three-lane machine: a `Tick` is an arrival when it ends the switch, a `Move`
steers when the runner is settled; otherwise the event is none of its business. -/
def laneInput (w : World K) : Event K → Option LaneInput
  | .tick dt =>
    match w.tick dt with
    | .ok w' => if w.gameMode.canSwitchLanes = false ∧ w'.gameMode.canSwitchLanes = true then some .arrive
      else none
    | .error _ => none
  | .move v => if w.gameMode.canSwitchLanes = true then some (.steer (sign v.x)) else none
  | _ => none

/-- What a run is to the three-lane machine: the `Move`s that are taken, and the `Tick`s that end a switch. -/
def laneInputs (w : World K) (es : List (Event K)) : List LaneInput :=
  (laneGame K).collect (fun u e => (u.laneInput e).toList) w es

/-- A `Tick` leaves the index, and never starts a switch. -/
theorem tick_flag {w w' : World K} {dt : K} (ht : w.tick dt = .ok w') :
    w'.gameMode.currentLaneIndex = w.gameMode.currentLaneIndex ∧
      (w.gameMode.canSwitchLanes = true → w'.gameMode.canSwitchLanes = true) := by
  rcases tick_cases ht with ⟨_, rfl⟩ | ⟨_, y, _, rfl | rfl⟩
  · exact ⟨rfl, id⟩
  · exact ⟨rfl, fun _ => rfl⟩
  · exact ⟨rfl, id⟩

/-- **Each step of the game is a step of the three-lane machine, or none.** -/
theorem laneStep_simulated {w w' : World K} {e : Event K} {s : ThreeLanes} (hw : OnLanes w)
    (hctrl : w.character.hasController = true) (hs : (laneGame K).Step w e w') (hat : AtLane w s) :
    match w.laneInput e with
    | some x => ∃ s', threeLanes.Step s x s' ∧ AtLane w' s'
    | none => AtLane w' s := by
  obtain ⟨hidx, hflag⟩ := hat
  rcases laneStep_cases hs with ⟨dt, rfl, ht⟩ | ⟨v, rfl, hm⟩
  · obtain ⟨hidx', hkeep⟩ := tick_flag ht
    simp only [laneInput, ht]
    split_ifs with harrive
    · refine ⟨⟨s.lane, true⟩, ⟨?_, rfl⟩, hidx'.trans hidx, harrive.2⟩
      exact hflag.symm.trans harrive.1
    · refine ⟨hidx'.trans hidx, Eq.trans ?_ hflag⟩
      cases hcan : w.gameMode.canSwitchLanes with
      | true => exact hkeep hcan
      | false => exact Bool.eq_false_iff.mpr fun h => harrive ⟨hcan, h⟩
  · simp only [laneInput]
    split_ifs with hcan
    · cases (hw.move_taken hctrl hcan v).symm.trans hm
      refine ⟨⟨s.lane.shift (sign v.x), false⟩, ⟨hflag.symm.trans hcan, rfl⟩, ?_, rfl⟩
      show clamp (w.gameMode.currentLaneIndex + sign v.x) 0 2 = clamp (s.lane.val + sign v.x) 0 2
      rw [hidx]
    · cases (move_ignored (fun hc => hcan hc.2) v).symm.trans hm
      exact ⟨hidx, hflag⟩

/-- **The game refines the three-lane machine.** -/
theorem laneRun_refines {w w' : World K} {es : List (Event K)} {s : ThreeLanes} (hw : OnLanes w)
    (hctrl : w.character.hasController = true) (hr : (laneGame K).Run w es w') (hat : AtLane w s) :
    ∃ s', threeLanes.Run s (w.laneInputs es) s' ∧ AtLane w' s' := by
  obtain ⟨s', hrun, hrel⟩ := hr.simulates (N := threeLanes) (f := laneInput)
    (R := fun u a => OnLanes u ∧ u.character.hasController = true ∧ AtLane u a)
    (fun u e v a hs hrel => by
      obtain ⟨hu, hc, ha⟩ := hrel
      have hnext := hu.step hs
      have hc' := (hu.step_character hs).2.2.trans hc
      have hmatch := laneStep_simulated hu hc hs ha
      cases hx : u.laneInput e with
      | none =>
        rw [hx] at hmatch
        exact ⟨hnext, hc', hmatch⟩
      | some x =>
        rw [hx] at hmatch
        obtain ⟨b, hb, hat'⟩ := hmatch
        exact ⟨b, hb, hnext, hc', hat'⟩)
    ⟨hw, hctrl, hat⟩
  exact ⟨s', hrun, hrel.2.2⟩

/-! ## From `BeginPlay` -/

variable [IsStrictOrderedRing K]

/-- The index that `BeginPlay` finds names a lane, and a player who may switch stands on it. So with the class defaults,
where the index is 0 and he may not. -/
structure FindsLane (w : World K) : Prop where
  nonneg : 0 ≤ w.gameMode.currentLaneIndex
  le_two : w.gameMode.currentLaneIndex ≤ 2
  settled : w.gameMode.canSwitchLanes = true →
    TArray.get [-255, 0, 255] w.gameMode.currentLaneIndex = .ok w.character.location.y

omit [LinearOrder K] [IsStrictOrderedRing K] in
theorem findsLane_fresh (c : TileClass K) (n : ℤ) (float : K → K := id) : FindsLane (World.fresh c n float) :=
  ⟨Int.le_refl 0, Int.zero_le_ofNat 2, fun h => absurd h Bool.false_ne_true⟩

/-- `BeginPlay` leaves the lane controller with three lanes, on the lane it was on or on its way there. -/
theorem onLanes_beginPlay {w w₀ : World K} {a : BeginPlayAnswers K} (init : w.Initial) (lane : FindsLane w)
    (begun : w.beginPlay a = .ok w₀) (player : a.player.isSome = true) :
    OnLanes w₀ ∧ w₀.gameMode.currentLaneIndex = w.gameMode.currentLaneIndex ∧
      w₀.gameMode.canSwitchLanes = w.gameMode.canSwitchLanes ∧ w₀.character = w.character := by
  obtain ⟨c, hc⟩ := beginPlay_class begun
  have hframe := beginPlay_onlyTiles begun hc
  obtain ⟨point, tiles, hmode⟩ := hframe.gameMode
  obtain ⟨rest, hvalues⟩ : ∃ rest, w₀.gameMode.laneSwitchValues = [-255, 0, 255] ++ rest := by
    rw [hmode]
    simp [opened, withLaneValues, withTile, prepared, init.laneSwitchValues]
  have hidx : w₀.gameMode.currentLaneIndex = w.gameMode.currentLaneIndex := by
    rw [hmode]
    rfl
  have hcan : w₀.gameMode.canSwitchLanes = w.gameMode.canSwitchLanes := by
    rw [hmode]
    rfl
  refine ⟨⟨?_, hidx ▸ lane.nonneg, hidx ▸ lane.le_two, ?_, ?_⟩, hidx, hcan, hframe.character⟩
  · rw [hmode]
    show (a.player.or w.gameMode.player).isSome = true
    rw [Option.isSome_or, player, Bool.true_or]
  · rw [hvalues, List.length_append]
    exact Nat.lt_add_right _ (Nat.lt_succ_self 2)
  · rw [hvalues, hidx, hcan, hframe.character, TArray.get_append_left rest (Int.lt_add_one_iff.mpr lane.le_two)]
    exact lane.settled

/-- **The lane controller is a three-lane machine.** In every state that `Move` and `Tick` reach from
`BeginPlay`: the index names one of the three lanes and one of the lane values, so no step of either is
stopped by a range check; a settled player stands exactly on the lane of the index; a `Move` then shifts
the index by one lane and starts a switch; the `Move`s that came at other times could have been left
out; and the player never left his place along the road, nor his height. The three-lane machine is where the inputs take
it that the run is to it. -/
theorem lanes_refine {w w₀ u : World K} {a : BeginPlayAnswers K} {es : List (Event K)}
    (init : w.Initial) (lane : FindsLane w) (begun : w.beginPlay a = .ok w₀) (player : a.player.isSome = true)
    (controller : w.character.hasController = true) (run : (laneGame K).Run w₀ es u) :
    (0 ≤ u.gameMode.currentLaneIndex ∧ u.gameMode.currentLaneIndex ≤ 2 ∧
      2 < u.gameMode.laneSwitchValues.length) ∧
    (∀ e : Event K, e.IsLaneEvent → ∃ v, u.step e = .ok v) ∧
    (u.gameMode.canSwitchLanes = true →
      TArray.get u.gameMode.laneSwitchValues u.gameMode.currentLaneIndex = .ok u.character.location.y) ∧
    (∀ v u', u.gameMode.canSwitchLanes = true → u.move v = .ok u' →
      u'.gameMode.currentLaneIndex = clamp (u.gameMode.currentLaneIndex + sign v.x) 0 2 ∧
        u'.gameMode.canSwitchLanes = false) ∧
    (laneGame K).Run w₀ (withoutIgnored w₀ es) u ∧
    (u.character.location.x = w₀.character.location.x ∧
      u.character.location.z = w₀.character.location.z) ∧
    ∃ s, threeLanes.Run ⟨⟨w.gameMode.currentLaneIndex, lane.nonneg, lane.le_two⟩, w.gameMode.canSwitchLanes⟩
      (w₀.laneInputs es) s ∧ AtLane u s := by
  obtain ⟨hstart, hidx, hcan, hcharacter⟩ := onLanes_beginPlay init lane begun player
  have hu := hstart.run run
  have hctrl₀ : w₀.character.hasController = true := by rw [hcharacter, controller]
  obtain ⟨hx, hz, hctrl⟩ := hstart.run_character run
  refine ⟨⟨hu.nonneg, hu.le_two, hu.inRange⟩, fun e he => hu.exists_step he, hu.settled, ?_,
    run_withoutIgnored run, ⟨hx, hz⟩, laneRun_refines hstart hctrl₀ run ⟨hidx, hcan⟩⟩
  intro v u' hset hm
  cases (hu.move_taken (hctrl.trans hctrl₀) hset v).symm.trans hm
  exact ⟨rfl, rfl⟩

/-- A `Move` that comes too early, and one that takes the runner from the left lane to the middle one. -/
def twoMoves : List (Event ℚ) := [.tick 2, .move ⟨-1, 0⟩, .tick 2, .move ⟨1, 0⟩, .tick 2, .tick 2]

/-- The three-lane machine has one steering input, and the runner stands in the middle. -/
theorem lanes_refine_twoMoves :
    ∃ u, (laneGame ℚ).Run (started (.ofOffsets 0 0 0 0 0) 0 (some ()) .bare) twoMoves u ∧
      u.gameMode.currentLaneIndex = 1 ∧ u.gameMode.canSwitchLanes = true ∧ u.character.location.y = 0 := by
  obtain ⟨u, hexec, hvalues⟩ : ∃ u, (game ℚ).exec (started (.ofOffsets 0 0 0 0 0) 0 (some ()) .bare) twoMoves = some u ∧
      u.gameMode.laneSwitchValues = [-255, 0, 255, 0, 0, 0] :=
    Option.map_eq_some_iff.mp (by decide +kernel)
  have run := (Machine.exec_eq_some.mp hexec).restrict_of_forall (P := fun _ e => e.IsLaneEvent)
    (by simp [twoMoves, Event.IsLaneEvent])
  obtain ⟨_, _, hstands, _, _, _, s, hrun, hindex, hflag⟩ := lanes_refine (World.fresh_initial (.ofOffsets 0 0 0 0 0) 0)
    (findsLane_fresh _ 0) (beginPlay_fresh _ 0 (some ()) TileDraw.safe_bare) rfl rfl run
  have hinputs : (started (.ofOffsets 0 0 0 0 0) 0 (some ()) .bare).laneInputs twoMoves =
      [.arrive, .steer 1, .arrive] := by
    decide +kernel
  rw [hinputs] at hrun
  cases hrun.det (.cons ⟨rfl, rfl⟩ (.cons ⟨rfl, rfl⟩ (.cons ⟨rfl, rfl⟩ (.nil _))))
  refine ⟨u, run, hindex, hflag, ?_⟩
  have hy := hstands hflag
  rw [hvalues, hindex] at hy
  exact (Except.ok.inj hy).symm

end World

end EndlessRunner
