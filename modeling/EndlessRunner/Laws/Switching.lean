import EndlessRunner.Laws.Lanes
import EndlessRunner.Laws.Speed
import EndlessRunner.Lib.Approach
import Mathlib.Algebra.Order.Group.Pointwise.Interval

/-!
# Lane switches

During a switch each `Tick` moves the runner a part of the way to the lane, or puts him on it when he was near. The
part is the frame's length times a configured speed, with no bound, so a switch stays on its way exactly when no part
is more than the whole (`World.never_overshoots_iff`), and is over within a number of frames that the parts decide
(`World.switch_completes`). `SwitchToLane` starts such a switch, and the lane it is asked for plays no part in it
(`World.switchToLane_arrives_iff`).
-/

set_option autoImplicit false

namespace EndlessRunner

open Lib (Machine)
open Lib.Approach (toward)

variable {K : Type} [Field K] [LinearOrder K]

namespace World

/-- A lane switch is going on. -/
def Switching (w : World K) : Prop := w.gameMode.player.isSome = true ∧ w.gameMode.canSwitchLanes = false

/-- The lane of the index is at `y`. -/
def Target (w : World K) (y : K) : Prop :=
  TArray.get w.gameMode.laneSwitchValues w.gameMode.currentLaneIndex = .ok y

/-- The player is so near to `y` that a `Tick` puts him there. -/
def Near (w : World K) (y : K) : Prop := (w.character.location.y - y) ^ 2 < 3 / 10

/-! ## A `Tick` of a switch -/

/-- The test of `Tick` is about the distance across the lanes. -/
theorem near_iff {w : World K} {y : K} :
    FVector.distSquared w.character.location (w.laneTarget y) < 3 / 10 ↔ Near w y := by
  have hdist : FVector.distSquared w.character.location (w.laneTarget y) = (w.character.location.y - y) ^ 2 := by
    simp only [FVector.distSquared, laneTarget]
    ring
  rw [hdist, Near]

theorem switched_of_near {w : World K} {y : K} (h : Near w y) (dt : K) :
    w.switched dt y = { w.sped with gameMode.canSwitchLanes := true, character.location := w.laneTarget y } :=
  if_pos (near_iff.mpr h)

theorem switched_of_not_near {w : World K} {y : K} (h : ¬ Near w y) (dt : K) :
    w.switched dt y = { w.sped with
      character.location :=
        FVector.lerp w.character.location (w.laneTarget y) (dt * w.gameMode.lanesSwitchingSpeed) } :=
  if_neg fun hnear => h (near_iff.mp hnear)

omit [LinearOrder K] in
theorem lerp_laneTarget_y (w : World K) (y f : K) :
    (FVector.lerp w.character.location (w.laneTarget y) f).y = toward y f w.character.location.y :=
  rfl

theorem Switching.tick_eq {w : World K} (h : Switching w) {y : K} (hy : Target w y) (dt : K) :
    w.tick dt = .ok (w.switched dt y) :=
  tick_eq_ok.mpr (.inl ⟨by rw [h.1, h.2]; rfl, y, hy, rfl⟩)

/-- A `Move` is ignored. -/
theorem Switching.move_eq {w : World K} (h : Switching w) (v : FVector2D K) : w.move v = .ok w :=
  move_ignored (fun hc => Bool.false_ne_true (h.2.symm.trans hc.2)) v

/-! ## Overshooting -/

/-- A `Tick` of a switch leaves the player between where he was and his lane. -/
def StaysBetween (w : World K) (e : Event K) : Prop :=
  ∀ dt y w', e = .tick dt → Switching w → Target w y → w.tick dt = .ok w' →
    w'.character.location.y ∈ Set.uIcc w.character.location.y y

/-- During a switch the target stays, and the player does not get further away from it. -/
def NeverFurther (w : World K) (e : Event K) : Prop :=
  ∀ y w', Switching w → Target w y → (laneGame K).Step w e w' →
    Target w' y ∧ |w'.character.location.y - y| ≤ |w.character.location.y - y|

/-- The part of the way that a `Tick` of a switch covers is not more than the whole, unless the player is near. -/
def FactorFits (w : World K) (e : Event K) : Prop :=
  ∀ dt y, e = .tick dt → Switching w → Target w y → dt * w.gameMode.lanesSwitchingSpeed ≤ 1 ∨ Near w y

/-- The lane of the index, and the three lanes that a `Move` can steer to, are between `lo` and `hi`. -/
def LanesWithin (lo hi : K) (w : World K) : Prop :=
  ∀ i y, i = w.gameMode.currentLaneIndex ∨ (0 ≤ i ∧ i ≤ 2) →
    TArray.get w.gameMode.laneSwitchValues i = .ok y → y ∈ Set.Icc lo hi

/-- The player is between `lo` and `hi`. -/
def InBand (lo hi : K) (w : World K) : Prop := w.character.location.y ∈ Set.Icc lo hi

/-- What `Move` and `Tick` leave alone of the lanes, and what they do to the index. -/
structure SameLanes (w w' : World K) : Prop where
  player : w'.gameMode.player = w.gameMode.player
  laneSwitchValues : w'.gameMode.laneSwitchValues = w.gameMode.laneSwitchValues
  lanesSwitchingSpeed : w'.gameMode.lanesSwitchingSpeed = w.gameMode.lanesSwitchingSpeed
  currentLaneIndex : w'.gameMode.currentLaneIndex = w.gameMode.currentLaneIndex ∨
    (0 ≤ w'.gameMode.currentLaneIndex ∧ w'.gameMode.currentLaneIndex ≤ 2)

theorem sameLanes_tick {w w' : World K} {dt : K} (h : w.tick dt = .ok w') : SameLanes w w' := by
  rcases tick_cases h with ⟨_, rfl⟩ | ⟨_, y, _, rfl | rfl⟩ <;> exact ⟨rfl, rfl, rfl, .inl rfl⟩

theorem sameLanes_step {w w' : World K} {e : Event K} (hs : (laneGame K).Step w e w') : SameLanes w w' := by
  rcases laneStep_cases hs with ⟨dt, rfl, ht⟩ | ⟨v, rfl, hm⟩
  · exact sameLanes_tick ht
  · rcases move_cases hm with rfl | rfl
    · exact ⟨rfl, rfl, rfl, .inl rfl⟩
    · have hclamp := clamp_mem (w.gameMode.currentLaneIndex + sign v.x) (show (0 : ℤ) ≤ 2 by decide)
      obtain ⟨can, hlock⟩ := lockLanes_frame (w.steered v)
      rw [hlock]
      exact ⟨rfl, rfl, rfl, .inr hclamp⟩

theorem SameLanes.lanesWithin {lo hi : K} {w w' : World K} (h : SameLanes w w') (hw : LanesWithin lo hi w) :
    LanesWithin lo hi w' := by
  intro i y hi hy
  rw [h.laneSwitchValues] at hy
  refine hw i y ?_ hy
  rcases hi with rfl | hrange
  · exact h.currentLaneIndex
  · exact .inr hrange

omit [LinearOrder K] in
theorem switching_of_flags {w : World K} (h : (w.gameMode.player.isSome && !w.gameMode.canSwitchLanes) = true) :
    Switching w := by
  simpa [Switching] using h

theorem inBand_step {lo hi : K} {w w' : World K} {e : Event K} (hs : (laneGame K).Step w e w')
    (hwithin : LanesWithin lo hi w) (hstays : StaysBetween w e) (h : InBand lo hi w) : InBand lo hi w' := by
  rcases laneStep_cases hs with ⟨dt, rfl, ht⟩ | ⟨v, rfl, hm⟩
  · rcases tick_cases ht with ⟨_, rfl⟩ | ⟨hflags, y, hy, _⟩
    · exact h
    · have hmem := hstays dt y w' rfl (switching_of_flags hflags) hy ht
      exact Set.uIcc_subset_Icc h (hwithin _ y (.inl rfl) hy) hmem
  · have hplace : w'.character.location = w.character.location := by
      rcases move_cases hm with rfl | rfl
      · rfl
      · obtain ⟨can, hlock⟩ := lockLanes_frame (w.steered v)
        rw [hlock]
        rfl
    rw [InBand, hplace]
    exact h

theorem run_lanesSwitchingSpeed {w w' : World K} {es : List (Event K)} (h : (laneGame K).Run w es w') :
    w'.gameMode.lanesSwitchingSpeed = w.gameMode.lanesSwitchingSpeed :=
  h.invariant (I := fun u => u.gameMode.lanesSwitchingSpeed = w.gameMode.lanesSwitchingSpeed)
    (fun _ _ _ hs hu => (sameLanes_step hs).lanesSwitchingSpeed.trans hu) rfl

/-- Frames that are short enough fit. -/
theorem along_factorFits {w : World K} {es : List (Event K)}
    (h : ∀ dt, .tick dt ∈ es → dt * w.gameMode.lanesSwitchingSpeed ≤ 1) : (laneGame K).Along FactorFits w es := by
  rintro es₁ e es₂ u rfl hu dt y rfl _ _
  rw [run_lanesSwitchingSpeed hu]
  exact .inl (h dt (List.mem_append_right _ List.mem_cons_self))

variable [IsStrictOrderedRing K]

/-- Who stays on his way gets no further from its end. -/
theorem StaysBetween.neverFurther {w : World K} {e : Event K} (h : StaysBetween w e) : NeverFurther w e := by
  intro y w' hswitching hy hs
  rcases laneStep_cases hs with ⟨dt, rfl, ht⟩ | ⟨v, rfl, hm⟩
  · refine ⟨?_, ?_⟩
    · rw [Target, (sameLanes_tick ht).laneSwitchValues, (tick_flag ht).1]
      exact hy
    · rw [abs_sub_comm, abs_sub_comm w.character.location.y]
      exact Set.abs_sub_right_of_mem_uIcc (h dt y w' rfl hswitching hy ht)
  · cases (hswitching.move_eq v).symm.trans hm
    exact ⟨hy, le_rfl⟩

/-- **A `Tick` of a switch stays on its way exactly when its part of the way is not more than the whole.** -/
theorem staysBetween_iff {w : World K} {e : Event K} (hspeed : 0 ≤ w.gameMode.lanesSwitchingSpeed)
    (hframe : ∀ dt, e = .tick dt → 0 ≤ dt) : StaysBetween w e ↔ FactorFits w e := by
  constructor
  · intro h dt y he hswitching hy
    by_cases hnear : Near w y
    · exact .inr hnear
    · have hmem := h dt y _ he hswitching hy (hswitching.tick_eq hy dt)
      rw [switched_of_not_near hnear, lerp_laneTarget_y] at hmem
      rcases (Lib.Approach.toward_mem_uIcc_iff (mul_nonneg (hframe dt he) hspeed)).mp hmem with hfits | hthere
      · exact .inl hfits
      · refine absurd ?_ hnear
        rw [Near, hthere, sub_self, zero_pow two_ne_zero]
        positivity
  · intro h dt y w' he hswitching hy ht
    cases (hswitching.tick_eq hy dt).symm.trans ht
    by_cases hnear : Near w y
    · rw [switched_of_near hnear]
      exact Set.right_mem_uIcc
    · rw [switched_of_not_near hnear, lerp_laneTarget_y]
      have hfits := (h dt y he hswitching hy).resolve_right hnear
      exact (Lib.Approach.toward_mem_uIcc_iff (mul_nonneg (hframe dt he) hspeed)).mpr (.inl hfits)

/-- **Lane switches do not overshoot exactly when no `Tick` of a switch covers more than the whole way.** Then the
distance to the lane never grows during a switch, and who is between the lanes stays between them. -/
theorem never_overshoots_iff {w : World K} {es : List (Event K)} (speed : 0 ≤ w.gameMode.lanesSwitchingSpeed)
    (frames : ∀ dt, .tick dt ∈ es → 0 ≤ dt) :
    ((laneGame K).Along StaysBetween w es ∧ (laneGame K).Along NeverFurther w es ∧
      ∀ lo hi, LanesWithin lo hi w → InBand lo hi w → (laneGame K).Throughout (InBand lo hi) w es) ↔
      (laneGame K).Along FactorFits w es := by
  have hiff : ∀ {es₁ e es₂ u}, es = es₁ ++ e :: es₂ → (laneGame K).Run w es₁ u →
      (StaysBetween u e ↔ FactorFits u e) := by
    intro es₁ e es₂ u hsplit hu
    refine staysBetween_iff ((run_lanesSwitchingSpeed hu).ge.trans' speed) fun dt he => frames dt ?_
    rw [hsplit, ← he]
    exact List.mem_append_right _ List.mem_cons_self
  constructor
  · rintro ⟨hstays, _, _⟩ es₁ e es₂ u hsplit hu
    exact (hiff hsplit hu).mp (hstays es₁ e es₂ u hsplit hu)
  · intro hfits
    have hstays : (laneGame K).Along StaysBetween w es := fun es₁ e es₂ u hsplit hu =>
      (hiff hsplit hu).mpr (hfits es₁ e es₂ u hsplit hu)
    refine ⟨hstays, fun es₁ e es₂ u hsplit hu => (hstays es₁ e es₂ u hsplit hu).neverFurther, ?_⟩
    rintro lo hi hwithin hband es₁ es₂ u rfl hu
    -- the part up to `u` is a run whose steps all stay on their way
    have hrun : ((laneGame K).restrict StaysBetween).Run w es₁ u :=
      Machine.restrict_run.mpr ⟨hu, fun fs e gs v hsplit hv => hstays fs e (gs ++ es₂) v (by simp [hsplit]) hv⟩
    refine (hrun.invariant (I := fun v => LanesWithin lo hi v ∧ InBand lo hi v) ?_ ⟨hwithin, hband⟩).2
    rintro v e v' hs ⟨hlanes, hin⟩
    obtain ⟨hstep, hbetween⟩ := Machine.restrict_step.mp hs
    exact ⟨(sameLanes_step hstep).lanesWithin hlanes, inBand_step hstep hlanes hbetween hin⟩

/-- `BeginPlay` at the class defaults, with a runner and one tile. -/
def runnerAtStart : World ℚ := started (.ofOffsets 0 0 0 0 0) 0 (some ()) .bare

/-- The same with a fast lane switch. -/
def fastSwitch : World ℚ := { runnerAtStart with gameMode.lanesSwitchingSpeed := 10 }

/-- Two frames of a second, and a `Move` between them. -/
theorem never_overshoots_two_frames :
    (laneGame ℚ).Along StaysBetween runnerAtStart [.tick 1, .move ⟨1, 0⟩, .tick 1] := by
  have hfits : (laneGame ℚ).Along FactorFits runnerAtStart [.tick 1, .move ⟨1, 0⟩, .tick 1] := by
    apply along_factorFits
    intro dt hdt
    cases (by simpa using hdt : dt = 1)
    decide +kernel
  exact ((never_overshoots_iff (by decide +kernel) (by simp)).mpr hfits).1

/-- With a fast lane switch a frame of a fifth of a second takes the player to twice the distance. -/
theorem not_never_overshoots :
    ¬ ∀ (w w' : World ℚ) (dt y : ℚ), 0 ≤ w.gameMode.lanesSwitchingSpeed → 0 ≤ dt → Switching w → Target w y →
      w.tick dt = .ok w' → w'.character.location.y ∈ Set.uIcc w.character.location.y y := by
  intro h
  have hswitching : Switching fastSwitch := ⟨rfl, rfl⟩
  have hy : Target fastSwitch (-255) := rfl
  have hmem := h fastSwitch _ (1 / 5) (-255) (by decide +kernel) (by norm_num) hswitching hy
    (hswitching.tick_eq hy _)
  rw [Set.mem_uIcc] at hmem
  revert hmem
  decide +kernel

/-! ## Completion -/

/-- The events bring the switch to `y` to its end with a `Tick`, which is one of the first `n`. -/
def CompletesWithin (w : World K) (y : K) (es : List (Event K)) (n : ℕ) : Prop :=
  ∃ es₁ dt es₂ u, es = es₁ ++ .tick dt :: es₂ ∧ (laneGame K).Throughout Switching w es₁ ∧
    (laneGame K).Run w (es₁ ++ [.tick dt]) u ∧ ticks (es₁ ++ [.tick dt]) ≤ n ∧
    u.gameMode.canSwitchLanes = true ∧ u.character.location.y = y

omit [IsStrictOrderedRing K] in
/-- An event that leaves the switch going on comes before. -/
theorem CompletesWithin.cons {w v : World K} {y : K} {e : Event K} {es : List (Event K)} {n : ℕ}
    (h : CompletesWithin v y es n) (hs : (laneGame K).Step w e v) (hswitching : Switching w) :
    CompletesWithin w y (e :: es) (n + if e.isTick = true then 1 else 0) := by
  obtain ⟨es₁, dt, es₂, u, rfl, hon, hrun, hcount, hcan, hy⟩ := h
  refine ⟨e :: es₁, dt, es₂, u, rfl, (Machine.throughout_cons hs).mpr ⟨hswitching, hon⟩, .cons hs hrun, ?_, hcan, hy⟩
  rw [List.cons_append, ticks_cons]
  exact Nat.add_le_add_right hcount _

omit [IsStrictOrderedRing K] in
/-- A `Tick` near the lane ends the switch. -/
theorem Switching.completes_of_near {w : World K} (h : Switching w) {y : K} (hy : Target w y) (hnear : Near w y)
    (dt : K) (es : List (Event K)) (n : ℕ) : CompletesWithin w y (.tick dt :: es) (n + 1) := by
  have hs : (laneGame K).Step w (.tick dt) (w.switched dt y) := laneStep_of_step trivial (h.tick_eq hy dt)
  refine ⟨[], dt, es, _, rfl, ?_, Machine.run_singleton.mpr hs, ?_, ?_, ?_⟩
  · intro es₁ es₂ u hsplit hu
    obtain ⟨rfl, _⟩ := List.append_eq_nil_iff.mp hsplit.symm
    exact Machine.run_nil.mp hu ▸ h
  · exact Nat.le_add_left 1 n
  · rw [switched_of_near hnear]
  · rw [switched_of_near hnear]
    rfl

/-- **Every lane switch completes.** When each `Tick` covers between a part `a` and a part `2 - a` of the way, and `N`
such parts bring the player near to the lane, the switch is over with `Tick` number `N + 1` at the latest, whatever
`Move`s come between; and the player is then on the lane. -/
theorem switch_completes {a y : K} {es : List (Event K)} : ∀ {w : World K} {N : ℕ}, Switching w → Target w y →
    (∀ e ∈ es, e.IsLaneEvent) →
    (∀ dt, .tick dt ∈ es → a ≤ dt * w.gameMode.lanesSwitchingSpeed ∧ dt * w.gameMode.lanesSwitchingSpeed ≤ 2 - a) →
    (w.character.location.y - y) ^ 2 * (1 - a) ^ (2 * N) < 3 / 10 → N < ticks es →
    CompletesWithin w y es (N + 1) := by
  induction es with
  | nil => exact fun _ _ _ _ _ hcount => absurd hcount (Nat.not_lt_zero _)
  | cons e es ih =>
    intro w N hswitching hy hlanes hfactors hbound hcount
    obtain ⟨hlane, hlanes'⟩ := List.forall_mem_cons.mp hlanes
    rw [ticks_cons] at hcount
    cases e with
    | move v =>
      have hs : (laneGame K).Step w (.move v) w := laneStep_of_step trivial (hswitching.move_eq v)
      exact (ih hswitching hy hlanes' (fun dt hdt => hfactors dt (List.mem_cons_of_mem _ hdt)) hbound hcount).cons
        hs hswitching
    | tick dt =>
      by_cases hnear : Near w y
      · exact hswitching.completes_of_near hy hnear dt es N
      · cases N with
        | zero =>
          rw [Nat.mul_zero, pow_zero, mul_one] at hbound
          exact absurd hbound hnear
        | succ n =>
          have hs : (laneGame K).Step w (.tick dt) (w.switched dt y) :=
            laneStep_of_step trivial (hswitching.tick_eq hy dt)
          rw [switched_of_not_near hnear] at hs
          obtain ⟨hlo, hhi⟩ := hfactors dt List.mem_cons_self
          have hpart : |1 - dt * w.gameMode.lanesSwitchingSpeed| ≤ 1 - a := abs_le.mpr ⟨by linarith, by linarith⟩
          have hless := Lib.Approach.sq_toward_sub_mul_pow_le (y := y) (x := w.character.location.y) hpart n
          refine (ih (N := n) ?_ ?_ hlanes' ?_ ?_ (Nat.lt_of_succ_lt_succ hcount)).cons hs hswitching
          · exact hswitching
          · exact hy
          · exact fun dt' hdt => hfactors dt' (List.mem_cons_of_mem _ hdt)
          · exact lt_of_le_of_lt hless hbound
    | _ => exact hlane.elim

/-- A `Move`, then a frame that covers the whole way, twice. -/
def moveThenTick : List (Event ℚ) := [.move ⟨1, 0⟩, .tick 2, .move ⟨1, 0⟩, .tick 2]

/-- The switch that `BeginPlay` leaves to be done is over with the second frame. -/
theorem switch_completes_in_two : CompletesWithin runnerAtStart (-255) moveThenTick 2 := by
  have hfactors : ∀ dt, .tick dt ∈ moveThenTick →
      1 ≤ dt * runnerAtStart.gameMode.lanesSwitchingSpeed ∧
        dt * runnerAtStart.gameMode.lanesSwitchingSpeed ≤ 2 - 1 := by
    intro dt hdt
    cases (by simpa [moveThenTick] using hdt : dt = 2)
    decide +kernel
  exact switch_completes (a := 1) (N := 1) ⟨rfl, rfl⟩ rfl (by simp [moveThenTick, Event.IsLaneEvent]) hfactors
    (by norm_num) (by decide)

/-! ## `SwitchToLane` -/

omit [LinearOrder K] [IsStrictOrderedRing K] in
/-- `SwitchToLane` with an index in range starts a switch from a settled state, and leaves the lane index. -/
theorem OnLanes.switchToLane {w : World K} (h : OnLanes w) (hcan : w.gameMode.canSwitchLanes = true) {i : ℤ}
    (h0 : 0 ≤ i) (hlt : i < w.gameMode.laneSwitchValues.length) :
    w.switchToLane i = .ok { w with gameMode.canSwitchLanes := false } := by
  obtain ⟨y, hy⟩ := TArray.exists_get h0 hlt
  rw [switchToLane_eq, hy, ok_bind, lockLanes, if_pos (by rw [h.player, hcan]; rfl)]

omit [IsStrictOrderedRing K] in
/-- `Tick`s leave the lane index and the lane values. -/
theorem run_ticks_lane {dts : List K} : ∀ {w w' : World K}, (game K).Run w (dts.map .tick) w' →
    w'.gameMode.currentLaneIndex = w.gameMode.currentLaneIndex ∧
      w'.gameMode.laneSwitchValues = w.gameMode.laneSwitchValues := by
  induction dts with
  | nil => exact fun h => Machine.run_nil.mp h ▸ ⟨rfl, rfl⟩
  | cons dt dts ih =>
    intro w w' h
    obtain ⟨u, hu, hrest⟩ := Machine.run_cons.mp h
    obtain ⟨hindex, hvalues⟩ := ih hrest
    exact ⟨hindex.trans (tick_flag hu.2).1, hvalues.trans (sameLanes_tick hu.2).laneSwitchValues⟩

/-- **`SwitchToLane` goes to the lane it is asked for exactly when the player is on it already.** From every state with
no switch going on that `Move` and `Tick` reach from `BeginPlay`: the call with an index in range starts a switch, which
the next `Tick` ends; and whenever it has ended, the index and the player are at the lane of the call exactly when the
index was that lane's before the call. -/
theorem switchToLane_arrives_iff {w w₀ v : World K} {a : BeginPlayAnswers K} {es : List (Event K)} {i : ℤ}
    (init : w.Initial) (lane : FindsLane w) (begun : w.beginPlay a = .ok w₀) (player : a.player.isSome = true)
    (run : (laneGame K).Run w₀ es v) (settled : v.gameMode.canSwitchLanes = true) (nonneg : 0 ≤ i)
    (inRange : i < v.gameMode.laneSwitchValues.length) :
    ∃ v', v.switchToLane i = .ok v' ∧
      (∀ dt, ∃ u, (game K).Step v' (.tick dt) u ∧ u.gameMode.canSwitchLanes = true) ∧
      ∀ (dts : List K) u, (game K).Run v' (dts.map .tick) u → u.gameMode.canSwitchLanes = true →
        ((u.gameMode.currentLaneIndex = i ∧
          TArray.get u.gameMode.laneSwitchValues i = .ok u.character.location.y) ↔
          v.gameMode.currentLaneIndex = i) := by
  have hv : OnLanes v := (onLanes_beginPlay init lane begun player).1.run run
  have hlocked : OnLanes { v with gameMode.canSwitchLanes := false } :=
    ⟨hv.player, hv.nonneg, hv.le_two, hv.inRange, fun h => absurd h Bool.false_ne_true⟩
  have hswitching : Switching { v with gameMode.canSwitchLanes := false } := ⟨hv.player, rfl⟩
  refine ⟨_, hv.switchToLane settled nonneg inRange, ?_, ?_⟩
  · -- a settled player is on the lane of the index
    intro dt
    have hnear : Near { v with gameMode.canSwitchLanes := false } v.character.location.y := by
      rw [Near, sub_self, zero_pow two_ne_zero]
      positivity
    refine ⟨_, ⟨trivial, hswitching.tick_eq (hv.settled settled) dt⟩, ?_⟩
    rw [switched_of_near hnear]
  · intro dts u hrun hcan
    obtain ⟨hindex, _⟩ := run_ticks_lane hrun
    have hlanes : (laneGame K).Run { v with gameMode.canSwitchLanes := false } (dts.map .tick) u := by
      refine hrun.restrict_of_forall fun _ e he => ?_
      obtain ⟨dt, _, rfl⟩ := List.mem_map.mp he
      trivial
    have hu := hlocked.run hlanes
    have hthere := hu.settled hcan
    rw [show u.gameMode.currentLaneIndex = v.gameMode.currentLaneIndex from hindex] at hthere ⊢
    exact ⟨And.left, fun h => ⟨h, h ▸ hthere⟩⟩

/-- To the left lane, and then to the middle one. -/
def toTheMiddle : List (Event ℚ) := [.tick 2, .tick 2, .move ⟨1, 0⟩, .tick 2, .tick 2]

/-- The runner has steered to the middle lane and is asked to go there. -/
theorem switchToLane_arrives_middle :
    ∃ v, (laneGame ℚ).Run runnerAtStart toTheMiddle v ∧
      ∃ v' u, v.switchToLane 1 = .ok v' ∧ (game ℚ).Run v' ([2].map .tick) u ∧ u.gameMode.currentLaneIndex = 1 ∧
        TArray.get u.gameMode.laneSwitchValues 1 = .ok u.character.location.y := by
  obtain ⟨v, hexec, hstate⟩ : ∃ v, (game ℚ).exec runnerAtStart toTheMiddle = some v ∧
      (v.gameMode.canSwitchLanes, v.gameMode.laneSwitchValues.length, v.gameMode.currentLaneIndex) = (true, 6, 1) :=
    Option.map_eq_some_iff.mp (by decide +kernel)
  simp only [Prod.mk.injEq] at hstate
  obtain ⟨hcan, hlength, hindex⟩ := hstate
  have hv := (Machine.exec_eq_some.mp hexec).restrict_of_forall (P := fun _ e => e.IsLaneEvent)
    (by simp [toTheMiddle, Event.IsLaneEvent])
  obtain ⟨v', hcall, hends, harrives⟩ := switchToLane_arrives_iff (i := 1) (World.fresh_initial _ 0)
    (findsLane_fresh _ 0) (beginPlay_fresh _ 0 (some ()) TileDraw.safe_bare) rfl hv hcan (by decide)
    (by rw [hlength]; decide)
  obtain ⟨u, hu, hcan'⟩ := hends 2
  have hticks : (game ℚ).Run v' ([2].map .tick) u := Machine.run_singleton.mpr hu
  exact ⟨v, hv, v', u, hcall, hticks, (harrives [2] u hticks hcan').mpr hindex⟩

/-- The runner gets to the left lane. -/
theorem exists_settled :
    ∃ v, (laneGame ℚ).Run runnerAtStart [.tick 2, .tick 2] v ∧ v.gameMode.canSwitchLanes = true ∧
      v.gameMode.laneSwitchValues.length = 6 ∧ v.gameMode.lanesSwitchingSpeed = 1 / 2 := by
  have hexec : ((game ℚ).exec runnerAtStart [.tick 2, .tick 2]).map (fun u => (u.gameMode.canSwitchLanes,
      u.gameMode.laneSwitchValues.length, u.gameMode.lanesSwitchingSpeed)) = some (true, 6, 1 / 2) := by
    decide +kernel
  obtain ⟨v, hv, heq⟩ := Option.map_eq_some_iff.mp hexec
  obtain ⟨hcan, heq⟩ := Prod.mk.inj heq
  obtain ⟨hlength, hspeed⟩ := Prod.mk.inj heq
  exact ⟨v, (Machine.exec_eq_some.mp hv).restrict_of_forall (by simp [Event.IsLaneEvent]), hcan, hlength, hspeed⟩

/-- The runner on the left lane is asked to go to the right one, and stays. -/
theorem not_switchToLane_arrives :
    ¬ ∀ (w w₀ v v' u : World ℚ) (a : BeginPlayAnswers ℚ) (es : List (Event ℚ)) (dts : List ℚ) (i : ℤ) (b : ℚ),
      w.Initial → FindsLane w → w.beginPlay a = .ok w₀ → a.player.isSome = true → (laneGame ℚ).Run w₀ es v →
      v.gameMode.canSwitchLanes = true → 0 ≤ i → i < v.gameMode.laneSwitchValues.length →
      v.switchToLane i = .ok v' → 0 < b →
      (∀ dt ∈ dts, b ≤ dt * v.gameMode.lanesSwitchingSpeed ∧ dt * v.gameMode.lanesSwitchingSpeed ≤ 1) →
      (game ℚ).Run v' (dts.map .tick) u → u.gameMode.canSwitchLanes = true →
      u.gameMode.currentLaneIndex = i ∧
        TArray.get u.gameMode.laneSwitchValues i = .ok u.character.location.y := by
  intro h
  obtain ⟨v, hv, hcan, hlength, hspeed⟩ := exists_settled
  have hexec : ((game ℚ).exec runnerAtStart ([.tick 2, .tick 2] ++ .switchToLane 2 :: [2].map .tick)).map
      (fun u => (u.gameMode.canSwitchLanes, u.gameMode.currentLaneIndex)) = some (true, 0) := by
    decide +kernel
  obtain ⟨u, hu, heq⟩ := Option.map_eq_some_iff.mp hexec
  obtain ⟨hcan', hindex⟩ := Prod.mk.inj heq
  obtain ⟨v', hcall, hticks⟩ := Machine.run_cons.mp (hv.of_restrict.rest (Machine.exec_eq_some.mp hu))
  have harrived := h _ _ v v' u _ _ [2] 2 1 (World.fresh_initial _ 0) (findsLane_fresh _ 0)
    (beginPlay_fresh (K := ℚ) (.ofOffsets 0 0 0 0 0) 0 (some ()) TileDraw.safe_bare) rfl hv hcan (by decide)
    (by rw [hlength]; decide) hcall.2 zero_lt_one (by simp [hspeed]) hticks hcan'
  exact absurd (hindex.symm.trans harrived.1) (by decide)

end World

end EndlessRunner
