import EndlessRunner.Laws.Lives
import EndlessRunner.Laws.Parts
import Mathlib.Data.List.Count

/-!
# Timers

No timer is ever cancelled or set again: each one that is set fires once, when it is due, and they fire in the order in
which they are due (`World.timers_fire_once`). Nor can a timer stop the clock: time can always pass
(`World.time_passes`). Two consequences of the account: hits that come within one duration of the shield cost one life
together (`World.burst_costs_one_life`), and the runner's physics go off and on again at the times that `BeginPlay` has
set (`World.physics_toggled`).
-/

set_option autoImplicit false

namespace EndlessRunner

open Lib (Machine Timer)

variable {K : Type} [Field K] [LinearOrder K]

/-- The event is the clock's: time passes, or a timer fires. -/
def Event.OfClock : Event K → Prop
  | .advance _ | .fire _ => True
  | _ => False

namespace World

/-! ## The account of the timers -/

/-- The timers that an event sets. -/
def timersSet (w : World K) (e : Event K) : List (Timer K TimerAction) :=
  match e.toggles with
  | some value =>
    if w.gameMode.player.isSome = true ∧ 0 < w.gameMode.invincibilityDuration then
      [⟨w.time + w.gameMode.invincibilityDuration, .setInvincible (!value)⟩]
    else []
  | none => []

/-- The timer that an event fires. -/
def timersFired (w : World K) : Event K → List (Timer K TimerAction)
  | .fire i => w.timers[i]?.toList
  | _ => []

theorem togglePlayerInvincibility_timers (w : World K) (value : Bool) :
    (w.togglePlayerInvincibility value).timers =
      w.timers ++ timersSet w (.toggleInvincibility value) := by
  rcases hp : w.gameMode.player with _ | p
  · simp [togglePlayerInvincibility, timersSet, Event.toggles, hp]
  · by_cases hduration : 0 < w.gameMode.invincibilityDuration
    · simp [togglePlayerInvincibility, setTimer, timersSet, Event.toggles, hp, hduration]
    · simp [togglePlayerInvincibility, setTimer, timersSet, Event.toggles, hp, hduration]

theorem struck_timers (w : World K) (o : ObstacleId) :
    (w.struck o).timers = w.timers ++ timersSet w (.toggleInvincibility true) := by
  unfold struck
  split_ifs
  · exact togglePlayerInvincibility_timers w true
  · exact togglePlayerInvincibility_timers (w.updateLives (-1)) true

/-- **A step takes the timer out that it fires, and adds the one that it sets.** -/
theorem timers_step {w w' : World K} {e : Event K} (hs : (game K).Step w e w') :
    (w.timers ++ timersSet w e).Perm (timersFired w e ++ w'.timers) := by
  have hstep : w.step e = .ok w' := hs.2
  cases e with
  | hit o other =>
    rcases onCollisionBoxOverlap_eq_ok.mp hstep with ⟨hmiss, rfl⟩ | ⟨⟨hother, htag, _⟩, rfl⟩
    · have hnone : (Event.hit o other : Event K).toggles = none := if_pos hmiss
      simp only [timersSet, hnone, List.append_nil]
      exact .refl _
    · have hsome : (Event.hit o other : Event K).toggles = some true := by simp [Event.toggles, hother, htag]
      rw [struck_timers]
      simp only [timersSet, hsome]
      exact .refl _
  | toggleInvincibility value =>
    cases hstep
    rw [togglePlayerInvincibility_timers]
    exact .refl _
  | advance d =>
    cases hstep
    exact .of_eq (List.append_nil _)
  | fire i =>
    obtain ⟨τ, hτ, _⟩ : ∃ τ, w.timers[i]? = some τ ∧ τ.due = w.time := hs.1
    have hfire : w.fireTimer i = .ok w' := hstep
    rw [fireTimer_eq hτ] at hfire
    split at hfire
    · cases hfire
      obtain ⟨_, htimers, _⟩ := fired_facts w i τ.action
      obtain ⟨hi, hget⟩ := List.getElem?_eq_some_iff.mp hτ
      have hperm := List.getElem_cons_eraseIdx_perm hi
      rw [hget] at hperm
      simp only [timersSet, Event.toggles, timersFired, hτ, htimers, Option.toList_some, List.append_nil]
      exact hperm.symm
    · cases hfire
  | _ =>
    rw [(sameClock_step hs trivial).timers]
    exact .of_eq (List.append_nil _)

/-- What is set is due later. -/
theorem lt_due_of_set [IsStrictOrderedRing K] {w : World K} {e : Event K} {τ : Timer K TimerAction}
    (h : τ ∈ timersSet w e) : w.time < τ.due := by
  unfold timersSet at h
  split at h
  · split_ifs at h with hset
    · rw [List.mem_singleton.mp h]
      exact lt_add_of_pos_right _ hset.2
    · exact absurd h List.not_mem_nil
  · exact absurd h List.not_mem_nil

/-- Time passes by itself only. -/
theorem time_step {w w' : World K} {e : Event K} (hs : (game K).Step w e w') :
    w'.time = w.time ∨
      ∃ d, e = .advance d ∧ 0 ≤ d ∧ Timer.Quiet w.timers (w.time + d) ∧ w' = { w with time := w.time + d } := by
  rcases clockStep_cases hs with ⟨hsame, _⟩ | ⟨o, rfl, _⟩ | ⟨value, rfl, rfl⟩ | ⟨d, rfl, hd, hquiet, rfl⟩ |
    ⟨i, τ, rfl, _, _, rfl⟩
  · exact .inl hsame.time
  · obtain ⟨_, _, _, _, hstruck⟩ := struck_frame w o
    rw [hstruck]
    exact .inl rfl
  · obtain ⟨_, _, hcall⟩ := togglePlayerInvincibility_frame w value
    rw [hcall]
    exact .inl rfl
  · exact .inr ⟨d, rfl, hd, hquiet, rfl⟩
  · exact .inl (fired_facts w i τ.action).1

variable [IsStrictOrderedRing K]

theorem time_le_step {w w' : World K} {e : Event K} (hs : (game K).Step w e w') : w.time ≤ w'.time := by
  rcases time_step hs with hsame | ⟨d, _, hd, _, rfl⟩
  · exact hsame.ge
  · exact le_add_of_nonneg_right hd

/-- The clock never gets ahead of a pending timer. -/
theorem quiet_step {w w' : World K} {e : Event K} (h : Timer.Quiet w.timers w.time) (hs : (game K).Step w e w') :
    Timer.Quiet w'.timers w'.time := by
  rcases time_step hs with hsame | ⟨d, _, _, hquiet, rfl⟩
  · intro τ hτ
    rw [hsame]
    rcases List.mem_append.mp ((timers_step hs).mem_iff.mpr (List.mem_append_right _ hτ)) with hold | hnew
    · exact h τ hold
    · exact (lt_due_of_set hnew).le
  · exact hquiet

theorem time_le_run {w w' : World K} {es : List (Event K)} (hr : (game K).Run w es w') : w.time ≤ w'.time := by
  induction hr with
  | nil w => exact le_rfl
  | cons hs _ ih => exact (time_le_step hs).trans ih

omit [IsStrictOrderedRing K] in
/-- A timer that fires is due. -/
theorem due_of_fired {w w' : World K} {e : Event K} (hs : (game K).Step w e w') {τ : Timer K TimerAction}
    (hτ : τ ∈ timersFired w e) : τ.due = w.time := by
  cases e with
  | fire i =>
    obtain ⟨σ, hσ, hdue⟩ : ∃ σ, w.timers[i]? = some σ ∧ σ.due = w.time := hs.1
    simp only [timersFired, hσ, Option.toList_some, List.mem_singleton] at hτ
    rw [hτ]
    exact hdue
  | _ => exact absurd hτ List.not_mem_nil

/-- What fires in a run is due while it lasts, and in order. -/
theorem fired_in_order {w u : World K} {es : List (Event K)} (hr : (game K).Run w es u) :
    (∀ τ ∈ (game K).collect timersFired w es, w.time ≤ τ.due ∧ τ.due ≤ u.time) ∧
      ((game K).collect timersFired w es).Pairwise fun σ τ => σ.due ≤ τ.due := by
  induction hr with
  | nil w => exact ⟨fun τ hτ => absurd hτ List.not_mem_nil, .nil⟩
  | @cons w v u e es hs hrest ih =>
    obtain ⟨hwithin, hsorted⟩ := ih
    rw [Machine.collect_cons hs]
    have hfirst : ∀ τ ∈ timersFired w e, τ.due = w.time := fun τ hτ => due_of_fired hs hτ
    have hstep := time_le_step hs
    refine ⟨?_, List.pairwise_append.mpr ⟨?_, hsorted, ?_⟩⟩
    · intro τ hτ
      rcases List.mem_append.mp hτ with hnow | hlater
      · rw [hfirst τ hnow]
        exact ⟨le_rfl, hstep.trans (time_le_run hrest)⟩
      · obtain ⟨hle, hlast⟩ := hwithin τ hlater
        exact ⟨hstep.trans hle, hlast⟩
    · refine List.Pairwise.imp_of_mem (R := fun _ _ => True) ?_ (List.pairwise_of_forall fun _ _ => trivial)
      intro σ τ hσ hτ _
      rw [hfirst σ hσ, hfirst τ hτ]
    · intro σ hσ τ hτ
      rw [hfirst σ hσ]
      exact hstep.trans (hwithin τ hτ).1

omit [IsStrictOrderedRing K] in
/-- The account of a run. -/
theorem timers_run {w u : World K} {es : List (Event K)} (hr : (game K).Run w es u) :
    (w.timers ++ (game K).collect timersSet w es).Perm ((game K).collect timersFired w es ++ u.timers) :=
  hr.balance fun _ _ _ hs => timers_step hs

theorem quiet_run {w u : World K} {es : List (Event K)} (h : Timer.Quiet w.timers w.time)
    (hr : (game K).Run w es u) : Timer.Quiet u.timers u.time :=
  hr.invariant (I := fun v => Timer.Quiet v.timers v.time) (fun _ _ _ hs hquiet => quiet_step hquiet hs) h

/-- **Each timer that is set fires once, when it is due.** In a run from a state whose clock is not ahead of its timers,
those that were pending and those that are set are those that fire and those that are pending at the end; what fires is
due by then, and fires in order; what is pending is due later, or now. -/
theorem timers_fire_once {w u : World K} {es : List (Event K)} (quiet : Timer.Quiet w.timers w.time)
    (run : (game K).Run w es u) :
    (w.timers ++ (game K).collect timersSet w es).Perm ((game K).collect timersFired w es ++ u.timers) ∧
      ((game K).collect timersFired w es).Pairwise (fun σ τ => σ.due ≤ τ.due) ∧
      (∀ τ ∈ (game K).collect timersFired w es, w.time ≤ τ.due ∧ τ.due ≤ u.time) ∧
      ∀ τ ∈ u.timers, u.time ≤ τ.due := by
  obtain ⟨hwithin, hsorted⟩ := fired_in_order run
  exact ⟨timers_run run, hsorted, hwithin, quiet_run quiet run⟩

/-- Two hits, and the timers of `BeginPlay`: three of the four have fired. -/
theorem timers_fire_once_twoHits :
    ∃ u, (game ℚ).Run fourObstacles twoHits u ∧
      (fourObstacles.timers ++ (game ℚ).collect timersSet fourObstacles twoHits).Perm
        ((game ℚ).collect timersFired fourObstacles twoHits ++ u.timers) ∧
      ((game ℚ).collect timersFired fourObstacles twoHits).length = 3 := by
  obtain ⟨u, hu⟩ := Machine.exists_run_of_exec (M := game ℚ) fourObstacles twoHits (by decide +kernel)
  have hquiet := ((World.fresh_initial _ 2).clock beginPlay_fourObstacles rfl).2.2.1
  exact ⟨u, hu, (timers_fire_once hquiet hu).1, by decide +kernel⟩

/-! ## Time passes -/

/-- The clock alone. -/
def clockGame (K : Type) [Field K] [LinearOrder K] : Machine (World K) (Event K) Fault :=
  (game K).restrict fun _ e => e.OfClock

/-- Where no timer is due by then, the clock runs up to a later time at once. -/
theorem clock_step_to {w : World K} {limit : K} (hlater : w.time ≤ limit) (hfree : Timer.Quiet w.timers limit) :
    (clockGame K).Step w (.advance (limit - w.time)) { w with time := limit } := by
  refine Machine.restrict_step.mpr ⟨⟨⟨sub_nonneg.mpr hlater, ?_⟩, ?_⟩, trivial⟩
  · rw [add_sub_cancel]
    exact hfree
  · show Except.ok { w with time := w.time + (limit - w.time) } = _
    rw [add_sub_cancel]

/-- **The clock can be run to any later time**, timer after timer; the induction is on how many are pending. -/
theorem exists_run_clock (n : ℕ) : ∀ {w : World K} {limit : K}, w.timers.length = n →
    w.gameMode.player.isSome = true → Timer.Quiet w.timers w.time → w.time ≤ limit →
    ∃ es v, (clockGame K).Run w es v ∧ v.time = limit ∧ ∀ τ ∈ v.timers, limit < τ.due := by
  induction n with
  | zero =>
    intro w limit hlength _ _ hlater
    have hnone : w.timers = [] := List.length_eq_zero_iff.mp hlength
    refine ⟨_, _, Machine.run_singleton.mpr (clock_step_to hlater ?_), rfl, ?_⟩
    · rw [hnone]
      exact fun τ hτ => absurd hτ List.not_mem_nil
    · show ∀ τ ∈ w.timers, limit < τ.due
      rw [hnone]
      exact fun τ hτ => absurd hτ List.not_mem_nil
  | succ n ih =>
    intro w limit hlength player hquiet hlater
    have hne : w.timers ≠ [] := fun hnil => by simp [hnil] at hlength
    obtain ⟨i, σ, hσ, hfirst⟩ := Timer.exists_earliest hne
    rcases le_or_gt σ.due limit with hdue | hdue
    · -- the first timer fires, and one fewer is pending
      have hclock := clock_step_to (hquiet σ (List.mem_of_getElem? hσ)) hfirst
      generalize hx : ({ w with time := σ.due } : World K) = x at hclock
      obtain ⟨hmode, htime, htimers⟩ : x.gameMode = w.gameMode ∧ x.time = σ.due ∧ x.timers = w.timers :=
        hx ▸ ⟨rfl, rfl, rfl⟩
      rw [← htimers] at hσ hlength hfirst
      rw [← hmode] at player
      have hfire : (clockGame K).Step x (.fire i) (x.fired i σ.action) :=
        Machine.restrict_step.mpr ⟨step_fire player hσ htime.symm, trivial⟩
      obtain ⟨htime', htimers', hmode', _⟩ := fired_facts x i σ.action
      rw [← htime, ← htime'] at hdue hfirst
      have hquiet' := hfirst.of_sublist (List.eraseIdx_sublist x.timers i)
      rw [← htimers'] at hquiet'
      obtain ⟨es, v, hrun, hv⟩ := ih (length_fired hσ hlength) (hmode'.symm ▸ player) hquiet' hdue
      exact ⟨_, v, .cons hclock (.cons hfire hrun), hv⟩
    · exact ⟨_, _, Machine.run_singleton.mpr (clock_step_to hlater (hfirst.mono hdue.le)), rfl,
        fun τ hτ => hdue.trans_le (hfirst τ hτ)⟩

omit [IsStrictOrderedRing K] in
/-- The clock's events touch the shield and the timers only, and cost no life. -/
theorem clockGame_run {w v : World K} {es : List (Event K)} (hr : (clockGame K).Run w es v) :
    (∀ p, p ≠ Part.shield → v.view p = w.view p) ∧ v.gameMode = w.gameMode := by
  refine hr.invariant (I := fun u => (∀ p, p ≠ Part.shield → u.view p = w.view p) ∧ u.gameMode = w.gameMode) ?_
    ⟨fun _ _ => rfl, rfl⟩
  rintro x e y hs ⟨hview, hmode⟩
  obtain ⟨hgame, hclock⟩ := Machine.restrict_step.mp hs
  cases e with
  | advance d =>
    cases hgame.2
    exact ⟨fun p hp => (view_step hgame hp).trans (hview p hp), hmode⟩
  | fire i =>
    refine ⟨fun p hp => (view_step hgame hp).trans (hview p hp), ?_⟩
    rcases fireTimer_eq_ok hgame.2 with rfl | ⟨τ, _, rfl⟩
    · exact hmode
    · exact (fired_facts x i τ.action).2.2.1.trans hmode
  | _ => exact False.elim hclock

/-- **Time can always pass.** From every state that the game reaches, to whichever later time, the clock and the timers
can take it by themselves: all that is due by then has fired, no life was lost, and nothing but the shield, the runner's
physics and the timers is other than it was. -/
theorem time_passes {w w₀ u : World K} {a : BeginPlayAnswers K} {es : List (Event K)} {limit : K} (init : w.Initial)
    (begun : w.beginPlay a = .ok w₀) (player : a.player.isSome = true) (run : (game K).Run w₀ es u)
    (later : u.time ≤ limit) :
    ∃ fs v, (clockGame K).Run u fs v ∧ v.time = limit ∧ (∀ τ ∈ v.timers, limit < τ.due) ∧
      v.gameMode = u.gameMode ∧ ∀ p, p ≠ Part.shield → v.view p = u.view p := by
  obtain ⟨hplayer, _, hquiet, _⟩ := init.clock begun player
  have hplayer' : u.gameMode.player = w₀.gameMode.player := congrArg ConfigPart.player (config_run run)
  obtain ⟨fs, v, hrun, htime, hpending⟩ :=
    exists_run_clock _ rfl (hplayer' ▸ hplayer) (quiet_run hquiet run) later
  obtain ⟨hview, hmode⟩ := clockGame_run hrun
  exact ⟨fs, v, hrun, htime, hpending, hmode, hview⟩

/-- The last of the four timers fires. -/
theorem time_passes_twoHits :
    ∃ u fs v, (game ℚ).Run fourObstacles twoHits u ∧ (clockGame ℚ).Run u fs v ∧ v.time = 10 := by
  obtain ⟨u, hexec, htime⟩ : ∃ u, (game ℚ).exec fourObstacles twoHits = some u ∧ u.time = 5 / 2 :=
    Option.map_eq_some_iff.mp (by decide +kernel)
  have hu := Machine.exec_eq_some.mp hexec
  have hlater : u.time ≤ 10 := by
    rw [htime]
    norm_num
  obtain ⟨fs, v, hrun, hv, _⟩ := time_passes (World.fresh_initial _ 2) beginPlay_fourObstacles rfl hu hlater
  exact ⟨u, fs, v, hu, hrun, hv⟩

/-! ## Bursts of hits -/

omit [Field K] [LinearOrder K] [IsStrictOrderedRing K] in
/-- How many of the events are hits that strike the runner, or calls with true. -/
def strikes (es : List (Event K)) : ℕ := es.countP fun e => e.toggles == some true

/-- The timer takes the shield down. -/
def lowers (τ : Timer K TimerAction) : Bool := decide (τ.action = .setInvincible false)

omit [IsStrictOrderedRing K] in
theorem lowers_of_set {w : World K} (h : Timed w) {e : Event K} (he : e.toggles = some true) :
    timersSet w e = [⟨w.time + w.gameMode.invincibilityDuration, .setInvincible false⟩] := by
  simp only [timersSet, he, h.player, h.duration, and_self, if_true, Bool.not_true]

omit [IsStrictOrderedRing K] in
/-- **What a step costs**, set against the shields: a life is lost where the shield was down, and each strike leaves
the shield up and one more timer to take it down. -/
theorem cost_step {w w' : World K} {e : Event K} (h : Timed w) (hs : (hitGame K).Step w e w') :
    (if StrikesVulnerable w e then 1 else 0) + w'.timers.countP lowers +
        (if w.character.bIsInvincible = true then 1 else 0) ≤
      strikes [e] + w.timers.countP lowers + if w'.character.bIsInvincible = true then 1 else 0 := by
  obtain ⟨hgame, hnot⟩ := Machine.restrict_step.mp hs
  rcases clockStep_cases hgame with ⟨hsame, _, hmiss⟩ | ⟨o, rfl, htoggles, hstrikes⟩ | ⟨value, rfl, _⟩ |
    ⟨d, rfl, _, _, rfl⟩ | ⟨i, τ, rfl, hτ, _, rfl⟩
  · rw [if_neg hmiss, hsame.timers, hsame.bIsInvincible]
    omega
  · obtain ⟨_, htimers, hflag, _⟩ := h.struck_facts o
    have hone : strikes [e] = 1 := by simp [strikes, htoggles]
    have hcount : (w.struck o).timers.countP lowers = w.timers.countP lowers + 1 := by
      rw [htimers, List.countP_append]
      simp [lowers]
    rw [hone, hcount, if_pos hflag]
    simp only [hstrikes]
    cases w.character.bIsInvincible <;> simp
    omega
  · exact hnot.elim
  · have hfree : ¬ StrikesVulnerable w (.advance d) := id
    rw [if_neg hfree, Nat.zero_add]
    exact Nat.add_le_add_right (Nat.le_add_left _ _) _
  · obtain ⟨_, htimers, _, hflag⟩ := fired_facts w i τ.action
    obtain ⟨hi, hget⟩ := List.getElem?_eq_some_iff.mp hτ
    have hperm := (List.getElem_cons_eraseIdx_perm hi).countP_eq lowers
    rw [hget, List.countP_cons, ← htimers] at hperm
    have hfree : ¬ StrikesVulnerable w (.fire i) := id
    rw [if_neg hfree]
    rcases hflag with hsame | ⟨value, haction, hvalue⟩
    · rw [hsame]
      omega
    · have hfalse : value = false := h.lowers τ (List.mem_of_getElem? hτ) value haction
      have hlowers : lowers τ = true := by simp [lowers, haction, hfalse]
      rw [hvalue, hfalse, if_pos hlowers] at *
      split_ifs <;> omega

/-- The account of a run. -/
theorem cost_run {w u : World K} {es : List (Event K)} (h : Timed w) (hr : (hitGame K).Run w es u) :
    costlyHits w es + u.timers.countP lowers + (if w.character.bIsInvincible = true then 1 else 0) ≤
      strikes es + w.timers.countP lowers + if u.character.bIsInvincible = true then 1 else 0 := by
  induction hr with
  | nil w => simp [costlyHits, strikes]
  | @cons w v u e es hs _ ih =>
    have hfirst := cost_step h hs
    have hrest := ih (h.step hs)
    have hstrikes : strikes (e :: es) = strikes [e] + strikes es := by
      simp only [strikes, List.countP_cons, List.countP_nil, Nat.zero_add, Nat.add_comm]
    rw [costlyHits_cons hs.2, hstrikes]
    omega

/-- Within one duration no shield goes down that went up. -/
theorem strikes_le_set {w u : World K} {es : List (Event K)} {limit : K} (h : Timed w) (hr : (hitGame K).Run w es u)
    (hlimit : limit < w.time + w.gameMode.invincibilityDuration) :
    strikes es ≤ ((game K).collect timersSet w es).countP fun τ => lowers τ && decide (limit < τ.due) := by
  induction hr with
  | nil w => exact Nat.zero_le _
  | @cons w v u e es hs _ ih =>
    have hgame := (Machine.restrict_step.mp hs).1
    have hduration := (clock_step h.player h.duration.le h.quiet hgame).2.1
    have hlater : limit < v.time + v.gameMode.invincibilityDuration := by
      rw [hduration]
      exact hlimit.trans_le (add_le_add_left (time_le_step hgame) _)
    have hrest := ih (h.step hs) hlater
    rw [Machine.collect_cons hgame, List.countP_append, strikes, List.countP_cons]
    cases he : e.toggles == some true with
    | false =>
      rw [if_neg (by simp)]
      exact hrest.trans (Nat.le_add_left _ _)
    | true =>
      rw [if_pos rfl, lowers_of_set h (eq_of_beq he)]
      simp only [List.countP_cons, List.countP_nil, lowers, decide_true, hlimit, Bool.and_self, if_true]
      exact (Nat.add_le_add_right hrest 1).trans_eq (Nat.add_comm _ _)

/-- **Hits that come within one duration of the shield cost one life together.** After `BeginPlay`, when only hits raise
the shield, no more lives are lost by a time than hits were made one duration before it, and one. -/
theorem burst_costs_one_life {w w₀ v u : World K} {a : BeginPlayAnswers K} {es fs : List (Event K)} (init : w.Initial)
    (begun : w.beginPlay a = .ok w₀) (player : a.player.isSome = true)
    (duration : 0 < w.gameMode.invincibilityDuration) (before : (hitGame K).Run w₀ es v)
    (run : (hitGame K).Run v fs u) (short : u.time < v.time + w.gameMode.invincibilityDuration) :
    w.gameMode.lives - u.gameMode.lives ≤ strikes es + 1 := by
  obtain ⟨c, hc⟩ := beginPlay_class begun
  have hsame := SameClock.of_onlyTiles (beginPlay_onlyTiles begun hc)
  have hstart := init.timed begun player duration
  have hv : Timed v ∧ v.gameMode.invincibilityDuration = w.gameMode.invincibilityDuration := by
    refine before.invariant (I := fun x => Timed x ∧ x.gameMode.invincibilityDuration =
      w.gameMode.invincibilityDuration) ?_ ⟨hstart, (init.clock begun player).2.1⟩
    rintro x e y hs ⟨hx, hduration⟩
    have hkept := clock_step hx.player hx.duration.le hx.quiet (Machine.restrict_step.mp hs).1
    exact ⟨hx.step hs, hkept.2.1.trans hduration⟩
  -- all that the last hits set is still pending
  have hpending : strikes fs ≤ u.timers.countP lowers := by
    rw [← hv.2] at short
    have hperm := timers_run run.of_restrict
    have hwithin := (fired_in_order run.of_restrict).1
    have hnone : ((game K).collect timersFired v fs).countP (fun τ => lowers τ && decide (u.time < τ.due)) = 0 := by
      rw [List.countP_eq_zero]
      intro τ hτ
      simp [(hwithin τ hτ).2.not_gt]
    have hcount := hperm.countP_eq fun τ => lowers τ && decide (u.time < τ.due)
    rw [List.countP_append, List.countP_append, hnone] at hcount
    have hset := strikes_le_set hv.1 run short
    have hle : u.timers.countP (fun τ => lowers τ && decide (u.time < τ.due)) ≤ u.timers.countP lowers :=
      List.countP_mono_left fun τ _ hτ => (Bool.and_eq_true_iff.mp hτ).1
    omega
  have hcost := cost_run hstart (before.append run)
  have hlives := run_lives (before.append run).of_restrict
  have hnopending : w₀.timers.countP lowers = 0 := by
    rw [List.countP_eq_zero]
    intro τ hτ hlow
    exact (init.clock begun player).2.2.2 τ hτ false (of_decide_eq_true hlow)
  have hsplit : strikes (es ++ fs) = strikes es + strikes fs := List.countP_append
  have hstartLives : w₀.gameMode.lives = w.gameMode.lives := hsame.lives
  rw [hnopending, hsplit] at hcost
  rw [hlives, hstartLives]
  split_ifs at hcost <;> omega

/-- Three hits within one second cost one life. -/
theorem burst_costs_one_life_three :
    ∃ u, (game ℚ).Run fourObstacles [.hit 0 .runner, .advance (1 / 5), .fire 0, .hit 1 .runner, .hit 2 .runner] u ∧
      3 - u.gameMode.lives ≤ 1 := by
  obtain ⟨u, hu, htime, _, _⟩ := exists_hitRun
    [.hit 0 .runner, .advance (1 / 5), .fire 0, .hit 1 .runner, .hit 2 .runner] (by simp [Event.NotToggled])
    (t := 1 / 5) (d := 2) (n := 2) (by decide +kernel)
  have hshort : u.time < fourObstacles.time + (World.fresh (TileClass.ofOffsets 0 0 0 0 0 : TileClass ℚ)
      2).gameMode.invincibilityDuration := by
    rw [htime]
    decide +kernel
  have hnone : (hitGame ℚ).Run fourObstacles [] fourObstacles := .nil _
  have hcost := burst_costs_one_life (World.fresh_initial _ 2) beginPlay_fourObstacles rfl (by decide +kernel) hnone hu
    hshort
  exact ⟨u, hu.of_restrict, hcost.trans (by decide)⟩

/-! ## The runner's physics -/

omit [IsStrictOrderedRing K] [Field K] [LinearOrder K] in
/-- The timer turns the runner's physics on or off. -/
def togglesPhysics (τ : Timer K TimerAction) : Bool :=
  match τ.action with
  | .togglePhysics _ => true
  | .setInvincible _ => false

/-- The timers of `TogglePhysics` that are pending. -/
def physicsTimers (w : World K) : List (Timer K TimerAction) := w.timers.filter togglesPhysics

omit [IsStrictOrderedRing K] in
theorem filter_timersSet (w : World K) (e : Event K) : (timersSet w e).filter togglesPhysics = [] := by
  unfold timersSet
  split
  · split_ifs
    · exact List.filter_cons_of_neg (by simp [togglesPhysics])
    · rfl
  · rfl

omit [IsStrictOrderedRing K] in
/-- The physics are changed by their timers only, and no event sets one. -/
theorem physics_step {w w' : World K} {e : Event K} (hs : (game K).Step w e w') :
    (w.physicsTimers.Perm w'.physicsTimers ∧ w'.character.simulatePhysics = w.character.simulatePhysics) ∨
    ∃ τ, τ.due = w.time ∧ w.physicsTimers.Perm (τ :: w'.physicsTimers) ∧
      τ.action = .togglePhysics w'.character.simulatePhysics := by
  have hperm := (timers_step hs).filter togglesPhysics
  rw [List.filter_append, filter_timersSet, List.append_nil, List.filter_append] at hperm
  have hkeep : (timersFired w e).filter togglesPhysics = [] → w.physicsTimers.Perm w'.physicsTimers := by
    intro hnone
    rw [hnone, List.nil_append] at hperm
    exact hperm
  have hstep : w.step e = .ok w' := hs.2
  by_cases hwrites : Part.shield ∈ e.writes
  · cases e with
    | hit o other =>
      refine .inl ⟨hkeep rfl, ?_⟩
      rcases onCollisionBoxOverlap_eq_ok.mp hstep with ⟨_, rfl⟩ | ⟨_, rfl⟩
      · rfl
      · obtain ⟨_, _, _, _, hstruck⟩ := struck_frame w o
        rw [hstruck]
        rfl
    | toggleInvincibility value =>
      cases hstep
      refine .inl ⟨hkeep rfl, ?_⟩
      obtain ⟨_, _, hcall⟩ := togglePlayerInvincibility_frame w value
      rw [hcall]
    | advance d =>
      cases hstep
      exact .inl ⟨hkeep rfl, rfl⟩
    | fire i =>
      obtain ⟨τ, hτ, hdue⟩ : ∃ τ, w.timers[i]? = some τ ∧ τ.due = w.time := hs.1
      have hfired : timersFired w (.fire i) = [τ] := by simp [timersFired, hτ]
      have hfire : w.fireTimer i = .ok w' := hstep
      rw [fireTimer_eq hτ] at hfire
      split at hfire
      · cases hfire
        rw [hfired] at hperm hkeep
        cases haction : τ.action with
        | togglePhysics value =>
          rw [List.filter_cons_of_pos (by rw [togglesPhysics, haction])] at hperm
          rw [haction] at hperm
          exact .inr ⟨τ, hdue, hperm, haction⟩
        | setInvincible value =>
          have hother := hkeep (List.filter_cons_of_neg (by simp [togglesPhysics, haction]))
          rw [haction] at hother
          exact .inl ⟨hother, rfl⟩
      · cases hfire
    | _ => simp [Event.writes] at hwrites
  · have hshield : w'.shieldPart = w.shieldPart := view_step hs hwrites
    have htimers : w'.timers = w.timers := congrArg ShieldPart.timers hshield
    refine .inl ⟨.of_eq (congrArg (List.filter togglesPhysics) htimers).symm, ?_⟩
    exact congrArg ShieldPart.simulatePhysics hshield

/-- Where the runner's physics stand: both timers are pending, or the one that turns them on, or none. -/
inductive PhysicsPlan (off on : K) (initial : Bool) (w : World K) : Prop
  | before (timers : w.physicsTimers.Perm [⟨off, .togglePhysics false⟩, ⟨on, .togglePhysics true⟩])
    (flag : w.character.simulatePhysics = initial)
  | between (timers : w.physicsTimers.Perm [⟨on, .togglePhysics true⟩]) (begun : off ≤ w.time)
    (flag : w.character.simulatePhysics = false)
  | after (timers : w.physicsTimers = []) (begun : on ≤ w.time) (flag : w.character.simulatePhysics = true)

theorem PhysicsPlan.step {off on : K} {initial : Bool} (horder : off < on) {w w' : World K} {e : Event K}
    (h : PhysicsPlan off on initial w) (quiet : Timer.Quiet w.timers w.time) (hs : (game K).Step w e w') :
    PhysicsPlan off on initial w' := by
  have htime := time_le_step hs
  rcases physics_step hs with ⟨htimers, hflag⟩ | ⟨τ, hdue, htimers, haction⟩
  · cases h with
    | before timers flag => exact .before (htimers.symm.trans timers) (hflag.trans flag)
    | between timers begun flag => exact .between (htimers.symm.trans timers) (begun.trans htime) (hflag.trans flag)
    | after timers begun flag =>
      rw [timers] at htimers
      exact .after (List.nil_perm.mp htimers) (begun.trans htime) (hflag.trans flag)
  · cases h with
    | before timers flag =>
      -- the clock has not passed the first of the two, so it is the one that fires
      have hfirst : w.time ≤ off := by
        have hmem : (⟨off, .togglePhysics false⟩ : Timer K TimerAction) ∈ w.physicsTimers :=
          timers.mem_iff.mpr List.mem_cons_self
        exact quiet _ (List.mem_filter.mp hmem).1
      have hτ : τ = ⟨off, .togglePhysics false⟩ := by
        have hmem := timers.mem_iff.mp (htimers.mem_iff.mpr List.mem_cons_self)
        rcases List.mem_cons.mp hmem with heq | heq
        · exact heq
        · rw [List.mem_singleton.mp heq] at hdue
          exact absurd (hdue.trans_le hfirst) horder.not_ge
      subst hτ
      refine .between ((htimers.symm.trans timers).cons_inv) ?_ ?_
      · exact hdue.trans_le htime
      · exact (TimerAction.togglePhysics.inj haction).symm
    | between timers begun flag =>
      have hcons := htimers.symm.trans timers
      have hsingle := List.perm_singleton.mp hcons
      obtain ⟨rfl, hnil⟩ := List.cons.inj hsingle
      refine .after hnil ?_ ?_
      · exact hdue.trans_le htime
      · exact (TimerAction.togglePhysics.inj haction).symm
    | after timers begun flag =>
      rw [timers] at htimers
      exact absurd (List.nil_perm.mp htimers) (List.cons_ne_nil _ _)

/-- **The runner's physics are as they were for a fifth of a second after `BeginPlay`, off for the next tenth, and on
from then on**, in every run. -/
theorem physics_toggled {w w₀ u : World K} {a : BeginPlayAnswers K} {es : List (Event K)} (init : w.Initial)
    (begun : w.beginPlay a = .ok w₀) (run : (game K).Run w₀ es u) :
    (u.time < w.time + 1 / 5 → u.character.simulatePhysics = w.character.simulatePhysics) ∧
    (w.time + 1 / 5 < u.time → u.time < w.time + 3 / 10 → u.character.simulatePhysics = false) ∧
    (w.time + 3 / 10 < u.time → u.character.simulatePhysics = true) := by
  obtain ⟨c, hc⟩ := beginPlay_class begun
  have honly := beginPlay_onlyTiles begun hc
  have htimers : w₀.timers = [⟨w.time + 1 / 5, .togglePhysics false⟩, ⟨w.time + 3 / 10, .togglePhysics true⟩] := by
    rw [honly.timers]
    show w.timers ++ _ = _
    rw [init.timers, List.nil_append]
  have htime : w₀.time = w.time := honly.time
  have horder : w.time + 1 / 5 < w.time + 3 / 10 := by
    have hlt : (1 : K) / 5 < 3 / 10 := by norm_num
    exact (add_lt_add_iff_left _).mpr hlt
  have hquiet : Timer.Quiet w₀.timers w₀.time := by
    rw [htimers, htime]
    have hshort : w.time ≤ w.time + 1 / 5 := le_add_of_nonneg_right (by positivity)
    exact List.forall_mem_cons.mpr ⟨hshort, List.forall_mem_singleton.mpr (hshort.trans horder.le)⟩
  have hplan : PhysicsPlan (w.time + 1 / 5) (w.time + 3 / 10) w.character.simulatePhysics w₀ := by
    refine .before ?_ (congrArg Character.simulatePhysics honly.character)
    rw [physicsTimers, htimers]
    exact .refl _
  obtain ⟨hu, hclock⟩ : PhysicsPlan (w.time + 1 / 5) (w.time + 3 / 10) w.character.simulatePhysics u ∧
      Timer.Quiet u.timers u.time := by
    refine run.invariant (I := fun v => PhysicsPlan (w.time + 1 / 5) (w.time + 3 / 10)
      w.character.simulatePhysics v ∧ Timer.Quiet v.timers v.time) ?_ ⟨hplan, hquiet⟩
    rintro x e y hs ⟨hx, hxquiet⟩
    exact ⟨hx.step horder hxquiet hs, quiet_step hxquiet hs⟩
  have hdue : ∀ {τ}, τ ∈ u.physicsTimers → u.time ≤ τ.due := fun hτ => hclock _ (List.mem_filter.mp hτ).1
  cases hu with
  | before timers flag =>
    have hle := hdue (timers.mem_iff.mpr List.mem_cons_self)
    exact ⟨fun _ => flag, fun h => absurd h hle.not_gt, fun h => absurd h (hle.trans horder.le).not_gt⟩
  | between timers begun flag =>
    have hle := hdue (timers.mem_iff.mpr List.mem_cons_self)
    exact ⟨fun h => absurd h begun.not_gt, fun _ _ => flag, fun h => absurd h hle.not_gt⟩
  | after timers begun flag =>
    exact ⟨fun h => absurd h (horder.le.trans begun).not_gt, fun _ h => absurd h begun.not_gt, fun _ => flag⟩

/-- One second after `BeginPlay`. -/
theorem physics_toggled_oneSecond :
    ∃ u, (game ℚ).Run fourObstacles [.advance (1 / 5), .fire 0, .advance (1 / 10), .fire 0, .advance 1] u ∧
      u.character.simulatePhysics = true := by
  obtain ⟨u, hu, htime, _, _⟩ := exists_hitRun
    [.advance (1 / 5), .fire 0, .advance (1 / 10), .fire 0, .advance 1] (by simp [Event.NotToggled])
    (t := 13 / 10) (d := 2) (n := 3) (by decide +kernel)
  have hphysics := physics_toggled (World.fresh_initial _ 2) beginPlay_fourObstacles hu.of_restrict
  refine ⟨u, hu.of_restrict, hphysics.2.2 ?_⟩
  rw [htime]
  decide +kernel

end World

end EndlessRunner
