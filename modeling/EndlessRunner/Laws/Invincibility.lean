import EndlessRunner.Laws.Parts
import Mathlib.Algebra.Order.Ring.Rat
import Mathlib.Tactic.NormNum

/-!
# Invincibility

Every hit raises the shield and sets a timer that takes it down, and no timer is ever cancelled. So the shield
of a hit that costs a life lasts its full duration exactly when no timer of an earlier hit is still pending that
is due before its own (`World.Timed.shieldLasts_iff`): such a timer cannot be kept from firing first.
-/

set_option autoImplicit false

namespace EndlessRunner

open Lib (Machine Timer)

/-- The events that touch neither the clock, the shield nor the lives. -/
def Event.KeepsClock {K : Type} : Event K → Prop
  | .hit _ _ | .toggleInvincibility _ | .advance _ | .fire _ => False
  | _ => True

/-- What the event calls `TogglePlayerInvincibility` with, if it calls it: a hit that strikes the runner does. -/
def Event.toggles {K : Type} : Event K → Option Bool
  | .toggleInvincibility value => some value
  | .hit _ other => if (other.isThis && other.isOwner || !other.hasPlayerTag) = true then none else some true
  | _ => none

/-- `TogglePlayerInvincibility` is called by a hit only. -/
def Event.NotToggled {K : Type} : Event K → Prop
  | .toggleInvincibility _ => False
  | _ => True

variable {K : Type} [Field K] [LinearOrder K]

/-- The game in which `TogglePlayerInvincibility` is called by hits only. -/
def hitGame (K : Type) [Field K] [LinearOrder K] : Machine (World K) (Event K) Fault :=
  (game K).restrict fun _ e => e.NotToggled

namespace World

/-! ## What the events do to the clock -/

/-- Two worlds with the same clock, shield and lives. -/
structure SameClock (w w' : World K) : Prop where
  time : w'.time = w.time
  timers : w'.timers = w.timers
  bIsInvincible : w'.character.bIsInvincible = w.character.bIsInvincible
  lives : w'.gameMode.lives = w.gameMode.lives
  player : w'.gameMode.player = w.gameMode.player
  invincibilityDuration : w'.gameMode.invincibilityDuration = w.gameMode.invincibilityDuration

omit [LinearOrder K] in
theorem SameClock.of_view {w w' : World K} (hconfig : w'.configPart = w.configPart)
    (hshield : w'.shieldPart = w.shieldPart) : SameClock w w' where
  time := congrArg ShieldPart.time hshield
  timers := congrArg ShieldPart.timers hshield
  bIsInvincible := congrArg ShieldPart.bIsInvincible hshield
  lives := congrArg ShieldPart.lives hshield
  player := congrArg ConfigPart.player hconfig
  invincibilityDuration := congrArg ConfigPart.invincibilityDuration hconfig

omit [LinearOrder K] in
theorem SameClock.of_onlyTiles {w w' : World K} (h : OnlyTiles w w') : SameClock w w' :=
  .of_view (h.view_eq (p := .config) (by decide)) (h.view_eq (p := .shield) (by decide))

omit [LinearOrder K] in
theorem SameClock.refl (w : World K) : SameClock w w := ⟨rfl, rfl, rfl, rfl, rfl, rfl⟩

theorem sameClock_step {w w' : World K} {e : Event K} (hs : (game K).Step w e w') (he : e.KeepsClock) :
    SameClock w w' :=
  .of_view (config_step hs) (view_step hs (p := .shield) (by
    cases e <;> simp [Event.writes, Event.KeepsClock] at he ⊢))

/-- A call with `value` leads from `w` to `w'`: the flag now, and its negation by a timer. -/
structure Called (value : Bool) (w w' : World K) : Prop where
  time : w'.time = w.time
  player : w'.gameMode.player = w.gameMode.player
  invincibilityDuration : w'.gameMode.invincibilityDuration = w.gameMode.invincibilityDuration
  flag : w'.character.bIsInvincible = value
  timers : w'.timers = if 0 < w.gameMode.invincibilityDuration then
      w.timers ++ [⟨w.time + w.gameMode.invincibilityDuration, .setInvincible (!value)⟩]
    else w.timers

theorem called_toggle {w : World K} (hplayer : w.gameMode.player.isSome = true) (value : Bool) :
    Called value w (w.togglePlayerInvincibility value) := by
  by_cases hduration : 0 < w.gameMode.invincibilityDuration
  · rw [togglePlayerInvincibility_eq hplayer hduration]
    exact ⟨rfl, rfl, rfl, rfl, (if_pos hduration).symm⟩
  · -- a rate of zero schedules nothing
    obtain ⟨p, hp⟩ := Option.isSome_iff_exists.mp hplayer
    simp only [togglePlayerInvincibility, hp, setTimer, if_neg hduration]
    exact ⟨rfl, rfl, rfl, rfl, (if_neg hduration).symm⟩

theorem called_struck {w : World K} (hplayer : w.gameMode.player.isSome = true) (o : ObstacleId) :
    Called true w (w.struck o) := by
  unfold struck
  split_ifs
  · obtain ⟨htime, hp, hduration, hflag, htimers⟩ := called_toggle hplayer true
    exact ⟨htime, hp, hduration, hflag, htimers⟩
  · have hplayer' : (w.updateLives (-1)).gameMode.player.isSome = true := hplayer
    obtain ⟨htime, hp, hduration, hflag, htimers⟩ := called_toggle hplayer' true
    exact ⟨htime, hp, hduration, hflag, htimers⟩

theorem struck_lives (w : World K) (o : ObstacleId) :
    (w.struck o).gameMode.lives =
      if w.character.bIsInvincible = true then w.gameMode.lives else w.gameMode.lives - 1 := by
  obtain ⟨lives, timers, flag, hlives, hstruck⟩ := struck_frame w o
  rw [hstruck, ← hlives]
  rfl

omit [LinearOrder K] in
/-- What the timer that fires does. -/
theorem fired_facts (w : World K) (i : ℕ) (action : TimerAction) :
    (w.fired i action).time = w.time ∧ (w.fired i action).timers = w.timers.eraseIdx i ∧
      (w.fired i action).gameMode = w.gameMode ∧
      ((w.fired i action).character.bIsInvincible = w.character.bIsInvincible ∨
        ∃ value, action = .setInvincible value ∧ (w.fired i action).character.bIsInvincible = value) := by
  cases action with
  | togglePhysics value => exact ⟨rfl, rfl, rfl, .inl rfl⟩
  | setInvincible value => exact ⟨rfl, rfl, rfl, .inr ⟨value, rfl, rfl⟩⟩

omit [LinearOrder K] in
/-- A timer that fires is pending no more. -/
theorem length_fired {w : World K} {i n : ℕ} {σ : Timer K TimerAction} (hσ : w.timers[i]? = some σ)
    (hlength : w.timers.length = n + 1) : (w.fired i σ.action).timers.length = n := by
  obtain ⟨_, htimers, _⟩ := fired_facts w i σ.action
  obtain ⟨hi, _⟩ := List.getElem?_eq_some_iff.mp hσ
  rw [htimers, List.length_eraseIdx_of_lt hi, hlength, Nat.add_sub_cancel]

/-- The event is a hit that strikes a runner who is not invincible. -/
def StrikesVulnerable (w : World K) : Event K → Prop
  | .hit _ other => (other.isThis && other.isOwner) = false ∧ other.hasPlayerTag = true ∧
      other.asCharacter.isSome = true ∧ w.character.bIsInvincible = false
  | _ => False

instance (w : World K) : ∀ e, Decidable (StrikesVulnerable w e)
  | .hit _ other => inferInstanceAs (Decidable ((other.isThis && other.isOwner) = false ∧
      other.hasPlayerTag = true ∧ other.asCharacter.isSome = true ∧ w.character.bIsInvincible = false))
  | .tick _ | .groundTick | .physics _ | .translate _ | .move _ | .switchToLane _ | .spawnGroundTile _
  | .recycle _ _ _ | .toggleInvincibility _ | .collectGarbage | .advance _ | .fire _ => .isFalse id

/-- **What a step can do to the clock, the shield and the lives.** -/
theorem clockStep_cases {w w' : World K} {e : Event K} (hs : (game K).Step w e w') :
    (SameClock w w' ∧ e.toggles = none ∧ ¬ StrikesVulnerable w e) ∨
    (∃ o, w' = w.struck o ∧ e.toggles = some true ∧ (StrikesVulnerable w e ↔ w.character.bIsInvincible = false)) ∨
    (∃ value, e = .toggleInvincibility value ∧ w' = w.togglePlayerInvincibility value) ∨
    (∃ d, e = .advance d ∧ 0 ≤ d ∧ Timer.Quiet w.timers (w.time + d) ∧ w' = { w with time := w.time + d }) ∨
    ∃ i τ, e = .fire i ∧ w.timers[i]? = some τ ∧ τ.due = w.time ∧ w' = w.fired i τ.action := by
  have hen : w.Enabled e := hs.1
  have hstep : w.step e = .ok w' := hs.2
  cases e with
  | hit o other =>
    rcases onCollisionBoxOverlap_eq_ok.mp hstep with ⟨hmiss, rfl⟩ | ⟨hmeets, rfl⟩
    · refine .inl ⟨.refl _, if_pos hmiss, ?_⟩
      intro hstrike
      obtain ⟨hown, htag, _⟩ := hstrike
      simp [hown, htag] at hmiss
    · obtain ⟨hown, htag, hcast⟩ := hmeets
      refine .inr (.inl ⟨o, rfl, ?_, ?_⟩)
      · simp [Event.toggles, hown, htag]
      · exact ⟨fun hstrike => hstrike.2.2.2, fun hvulnerable => ⟨hown, htag, hcast, hvulnerable⟩⟩
  | toggleInvincibility value =>
    cases hstep
    exact .inr (.inr (.inl ⟨value, rfl, rfl⟩))
  | advance d =>
    cases hstep
    exact .inr (.inr (.inr (.inl ⟨d, rfl, hen.1, hen.2, rfl⟩)))
  | fire i =>
    obtain ⟨τ, hτ, hdue⟩ := hen
    have hfire : w.fireTimer i = .ok w' := hstep
    rw [fireTimer_eq hτ] at hfire
    split at hfire
    · cases hfire
      exact .inr (.inr (.inr (.inr ⟨i, τ, rfl, hτ, hdue, rfl⟩)))
    · cases hfire
  | _ => exact .inl ⟨sameClock_step hs trivial, rfl, fun h => h⟩

/-- **A step costs one life when it strikes a runner who is not invincible**, and none otherwise. -/
theorem step_lives {w w' : World K} {e : Event K} (hs : (game K).Step w e w') :
    w'.gameMode.lives = w.gameMode.lives - if StrikesVulnerable w e then 1 else 0 := by
  have hfree : ¬ StrikesVulnerable w e → w'.gameMode.lives = w.gameMode.lives →
      w'.gameMode.lives = w.gameMode.lives - if StrikesVulnerable w e then 1 else 0 := by
    intro hnot hsame
    rw [if_neg hnot, sub_zero, hsame]
  rcases clockStep_cases hs with ⟨hsame, _, hmiss⟩ | ⟨o, rfl, _, hstrikes⟩ | ⟨value, rfl, rfl⟩ |
    ⟨d, rfl, _, _, rfl⟩ | ⟨i, τ, rfl, _, _, rfl⟩
  · exact hfree hmiss hsame.lives
  · cases hi : w.character.bIsInvincible with
    | true =>
      refine hfree (fun h => Bool.false_ne_true ((hstrikes.mp h).symm.trans hi)) ?_
      rw [struck_lives, if_pos hi]
    | false => rw [struck_lives, if_neg (Bool.eq_false_iff.mp hi), if_pos (hstrikes.mpr hi)]
  · obtain ⟨timers, flag, hcall⟩ := togglePlayerInvincibility_frame w value
    exact hfree id (by rw [hcall])
  · exact hfree id rfl
  · obtain ⟨_, _, hmode, _⟩ := fired_facts w i τ.action
    exact hfree id (congrArg GameMode.lives hmode)

theorem costsLife_iff {w w' : World K} {e : Event K} (hs : (game K).Step w e w') :
    w'.gameMode.lives < w.gameMode.lives ↔ StrikesVulnerable w e := by
  rw [step_lives hs]
  split_ifs with hstrikes
  · exact iff_of_true (sub_one_lt _) hstrikes
  · rw [sub_zero]
    exact iff_of_false (lt_irrefl _) hstrikes

/-- What is left of these steps to who knows only how `TogglePlayerInvincibility` was called. -/
theorem toggleStep_cases {w w' : World K} {e : Event K} (hplayer : w.gameMode.player.isSome = true)
    (hs : (game K).Step w e w') :
    (e.toggles = none ∧ SameClock w w') ∨
    (∃ value, e.toggles = some value ∧ Called value w w') ∨
    (e.toggles = none ∧ ∃ d, 0 ≤ d ∧ Timer.Quiet w.timers (w.time + d) ∧ w' = { w with time := w.time + d }) ∨
    (e.toggles = none ∧ ∃ i τ, w.timers[i]? = some τ ∧ τ.due = w.time ∧ w' = w.fired i τ.action) := by
  rcases clockStep_cases hs with ⟨hsame, hnone, _⟩ | ⟨o, rfl, htoggles, _⟩ | ⟨value, rfl, rfl⟩ |
    ⟨d, rfl, hd, hquiet, rfl⟩ | ⟨i, τ, rfl, hτ, hdue, rfl⟩
  · exact .inl ⟨hnone, hsame⟩
  · exact .inr (.inl ⟨true, htoggles, called_struck hplayer o⟩)
  · exact .inr (.inl ⟨value, rfl, called_toggle hplayer value⟩)
  · exact .inr (.inr (.inl ⟨rfl, d, hd, hquiet, rfl⟩))
  · exact .inr (.inr (.inr ⟨rfl, i, τ, hτ, hdue, rfl⟩))

/-! ## The timers of the shield -/

/-- The timer takes the shield down. -/
def LowersShield (τ : Timer K TimerAction) : Prop := τ.action = .setInvincible false

/-- The clock is not ahead of its timers, and none of them raises the shield. -/
structure Timed (w : World K) : Prop where
  player : w.gameMode.player.isSome = true
  duration : 0 < w.gameMode.invincibilityDuration
  quiet : Timer.Quiet w.timers w.time
  lowers : ∀ τ ∈ w.timers, ∀ value, τ.action = .setInvincible value → value = false

/-- What a hit that strikes the runner does: the shield is up, and one more timer will take it down. -/
theorem Timed.struck_facts {w : World K} (h : Timed w) (o : ObstacleId) :
    (w.struck o).time = w.time ∧
      (w.struck o).timers =
        w.timers ++ [⟨w.time + w.gameMode.invincibilityDuration, .setInvincible false⟩] ∧
      (w.struck o).character.bIsInvincible = true ∧
      (w.struck o).gameMode.invincibilityDuration = w.gameMode.invincibilityDuration := by
  obtain ⟨htime, _, hduration, hflag, htimers⟩ := called_struck h.player o
  rw [if_pos h.duration] at htimers
  exact ⟨htime, htimers, hflag, hduration⟩

/-- What is left of these steps when only hits call `TogglePlayerInvincibility`. -/
theorem hitStep_cases {w w' : World K} {e : Event K} (hs : (hitGame K).Step w e w') :
    (SameClock w w' ∧ ¬ StrikesVulnerable w e) ∨
    (∃ o, w' = w.struck o ∧ (StrikesVulnerable w e ↔ w.character.bIsInvincible = false)) ∨
    (∃ d, 0 ≤ d ∧ Timer.Quiet w.timers (w.time + d) ∧ w' = { w with time := w.time + d } ∧
      ¬ StrikesVulnerable w e) ∨
    ∃ i τ, w.timers[i]? = some τ ∧ τ.due = w.time ∧ w' = w.fired i τ.action ∧ ¬ StrikesVulnerable w e := by
  obtain ⟨hgame, hnot⟩ := Machine.restrict_step.mp hs
  rcases clockStep_cases hgame with ⟨hsame, _, hmiss⟩ | ⟨o, rfl, _, hstrikes⟩ | ⟨value, rfl, _⟩ |
    ⟨d, rfl, hd, hquiet, rfl⟩ | ⟨i, τ, rfl, hτ, hdue, rfl⟩
  · exact .inl ⟨hsame, hmiss⟩
  · exact .inr (.inl ⟨o, rfl, hstrikes⟩)
  · exact hnot.elim
  · exact .inr (.inr (.inl ⟨d, hd, hquiet, rfl, fun h => h⟩))
  · exact .inr (.inr (.inr ⟨i, τ, hτ, hdue, rfl, fun h => h⟩))

section Field

variable [IsStrictOrderedRing K]

/-- The clock does not get ahead of its timers, and the duration stays. -/
theorem clock_step {w w' : World K} {e : Event K} (player : w.gameMode.player.isSome = true)
    (duration : 0 ≤ w.gameMode.invincibilityDuration) (quiet : Timer.Quiet w.timers w.time)
    (hs : (game K).Step w e w') :
    w'.gameMode.player.isSome = true ∧
      w'.gameMode.invincibilityDuration = w.gameMode.invincibilityDuration ∧ Timer.Quiet w'.timers w'.time := by
  rcases toggleStep_cases player hs with ⟨_, hsame⟩ | ⟨value, _, hcalled⟩ | ⟨_, d, _, hquiet, rfl⟩ |
    ⟨_, i, τ, _, _, rfl⟩
  · refine ⟨hsame.player ▸ player, hsame.invincibilityDuration, ?_⟩
    rw [hsame.timers, hsame.time]
    exact quiet
  · refine ⟨hcalled.player ▸ player, hcalled.invincibilityDuration, ?_⟩
    rw [hcalled.timers, hcalled.time]
    split_ifs
    · refine Timer.quiet_append.mpr ⟨quiet, ?_⟩
      intro τ hτ
      rw [List.mem_singleton.mp hτ]
      exact le_add_of_nonneg_right duration
    · exact quiet
  · exact ⟨player, rfl, hquiet⟩
  · obtain ⟨htime, htimers, hmode, _⟩ := fired_facts w i τ.action
    refine ⟨hmode ▸ player, congrArg GameMode.invincibilityDuration hmode, ?_⟩
    rw [htime, htimers]
    exact quiet.of_sublist (List.eraseIdx_sublist ..)

theorem Timed.step {w w' : World K} {e : Event K} (h : Timed w) (hs : (hitGame K).Step w e w') : Timed w' := by
  obtain ⟨hplayer, hduration, hquiet⟩ :=
    clock_step h.player h.duration.le h.quiet (Machine.restrict_step.mp hs).1
  refine ⟨hplayer, hduration ▸ h.duration, hquiet, ?_⟩
  rcases hitStep_cases hs with ⟨hsame, _⟩ | ⟨o, rfl, _⟩ | ⟨d, _, _, rfl, _⟩ | ⟨i, τ, _, _, rfl, _⟩
  · rw [hsame.timers]
    exact h.lowers
  · obtain ⟨_, htimers, _⟩ := h.struck_facts o
    rw [htimers]
    intro τ hτ value hvalue
    rcases List.mem_append.mp hτ with hold | hnew
    · exact h.lowers τ hold value hvalue
    · rw [List.mem_singleton.mp hnew] at hvalue
      cases hvalue
      rfl
  · exact h.lowers
  · obtain ⟨_, htimers, _⟩ := fired_facts w i τ.action
    rw [htimers]
    intro σ hσ
    exact h.lowers σ (List.mem_of_mem_eraseIdx hσ)

/-! ## The shield after a hit -/

/-- A hit at `start` on a vulnerable runner has the shield up until `start + duration`: nothing that is still
to fire takes it down before. -/
structure ShieldedFrom (start duration : K) (w : World K) : Prop where
  timed : Timed w
  invincibilityDuration : w.gameMode.invincibilityDuration = duration
  start_le : start ≤ w.time
  due : ∀ τ ∈ w.timers, LowersShield τ → start + duration ≤ τ.due
  up : w.time < start + duration → w.character.bIsInvincible = true

theorem ShieldedFrom.step {start duration : K} {w w' : World K} {e : Event K}
    (h : ShieldedFrom start duration w) (hs : (hitGame K).Step w e w') : ShieldedFrom start duration w' := by
  have htimed := h.timed.step hs
  rcases hitStep_cases hs with ⟨hsame, _⟩ | ⟨o, rfl, _⟩ | ⟨d, hd, _, rfl, _⟩ | ⟨i, τ, hτ, hdue, rfl, _⟩
  · refine ⟨htimed, hsame.invincibilityDuration.trans h.invincibilityDuration, ?_, ?_, ?_⟩
    · rw [hsame.time]
      exact h.start_le
    · rw [hsame.timers]
      exact h.due
    · rw [hsame.time, hsame.bIsInvincible]
      exact h.up
  · obtain ⟨htime, htimers, hup, hduration⟩ := h.timed.struck_facts o
    refine ⟨htimed, hduration.trans h.invincibilityDuration, htime ▸ h.start_le, ?_, fun _ => hup⟩
    rw [htimers]
    intro τ hτ hlowers
    rcases List.mem_append.mp hτ with hold | hnew
    · exact h.due τ hold hlowers
    · rw [List.mem_singleton.mp hnew, h.invincibilityDuration]
      exact add_le_add_left h.start_le _
  · refine ⟨htimed, h.invincibilityDuration, h.start_le.trans (le_add_of_nonneg_right hd), h.due, ?_⟩
    intro hlt
    exact h.up (lt_of_le_of_lt (le_add_of_nonneg_right hd) hlt)
  · obtain ⟨htime, htimers, hmode, hflag⟩ := fired_facts w i τ.action
    refine ⟨htimed, hmode ▸ h.invincibilityDuration, htime ▸ h.start_le, ?_, ?_⟩
    · rw [htimers]
      intro σ hσ
      exact h.due σ (List.mem_of_mem_eraseIdx hσ)
    · rw [htime]
      intro hlt
      rcases hflag with hsame | ⟨value, haction, _⟩
      · rw [hsame]
        exact h.up hlt
      · -- a timer that takes the shield down is not due yet
        have hmem := List.mem_of_getElem? hτ
        cases h.timed.lowers τ hmem value haction
        have hlate := h.due τ hmem haction
        exact absurd hlt (not_lt.mpr (hdue ▸ hlate))

omit [IsStrictOrderedRing K] in
/-- A timer that is due fires. -/
theorem step_fire {w : World K} {i : ℕ} {σ : Timer K TimerAction} (player : w.gameMode.player.isSome = true)
    (hσ : w.timers[i]? = some σ) (hdue : σ.due = w.time) : (game K).Step w (.fire i) (w.fired i σ.action) := by
  refine ⟨⟨σ, hσ, hdue⟩, ?_⟩
  show w.fireTimer i = _
  rw [fireTimer_eq hσ, if_pos player]

/-- The clock may run up to the earliest timer. -/
theorem step_to_timer {w : World K} {σ : Timer K TimerAction} (hlater : w.time ≤ σ.due)
    (hquiet : Timer.Quiet w.timers σ.due) :
    (game K).Step w (.advance (σ.due - w.time)) { w with time := σ.due } := by
  refine ⟨⟨sub_nonneg.mpr hlater, ?_⟩, ?_⟩
  · rw [add_sub_cancel]
    exact hquiet
  · show Except.ok { w with time := w.time + (σ.due - w.time) } = _
    rw [add_sub_cancel]

/-- **A timer that is due before a limit takes the shield down before it.** The clock runs to the first pending
timer, and that timer fires, until it is one of the shield's; the induction is on how many are pending. -/
theorem Timed.exists_run_down (n : ℕ) : ∀ {w : World K} {limit : K}, w.timers.length = n → Timed w →
    (∃ τ ∈ w.timers, LowersShield τ ∧ τ.due < limit) →
    ∃ es v, (hitGame K).Run w es v ∧ v.time < limit ∧ v.character.bIsInvincible = false := by
  induction n with
  | zero =>
    intro w limit hlength _ hstale
    obtain ⟨τ, hτ, _⟩ := hstale
    rw [List.length_eq_zero_iff.mp hlength] at hτ
    exact absurd hτ List.not_mem_nil
  | succ n ih =>
    intro w limit hlength h hstale
    obtain ⟨τ, hτ, hlowers, hlt⟩ := hstale
    obtain ⟨i, σ, hσ, hquiet⟩ := Timer.exists_earliest (List.ne_nil_of_mem hτ)
    have hmem := List.mem_of_getElem? hσ
    have hearly : σ.due < limit := (hquiet τ hτ).trans_lt hlt
    -- first the clock, then the timer
    have hclock : (hitGame K).Step w (.advance (σ.due - w.time)) { w with time := σ.due } :=
      Machine.restrict_step.mpr ⟨step_to_timer (h.quiet σ hmem) hquiet, trivial⟩
    have hfire : (hitGame K).Step { w with time := σ.due } (.fire i)
        (({ w with time := σ.due } : World K).fired i σ.action) :=
      Machine.restrict_step.mpr ⟨step_fire (w := { w with time := σ.due }) h.player hσ rfl, trivial⟩
    obtain ⟨htime, htimers, _, hflag⟩ := fired_facts ({ w with time := σ.due } : World K) i σ.action
    cases haction : σ.action with
    | togglePhysics value =>
      have hne : σ ≠ τ := by
        intro heq
        rw [heq, hlowers] at haction
        cases haction
      obtain ⟨es, v, hrun, hv⟩ := ih (length_fired (w := { w with time := σ.due }) hσ hlength)
        ((h.step hclock).step hfire) ⟨τ, htimers ▸ Timer.mem_eraseIdx_of_ne hσ hτ hne, hlowers, hlt⟩
      exact ⟨_, v, .cons hclock (.cons hfire hrun), hv⟩
    | setInvincible value =>
      refine ⟨_, _, .cons hclock (Machine.run_singleton.mpr hfire), htime.trans_lt hearly, ?_⟩
      rcases hflag with _ | ⟨value', haction', hdown⟩
      · rw [haction]
        exact h.lowers σ hmem value haction
      · rw [hdown]
        exact h.lowers σ hmem value' haction'

/-- The hit, if it costs a life, gives the player its full duration: in whatever comes after it he is invincible
until then, and loses no life. -/
def ShieldLasts (w : World K) (e : Event K) : Prop :=
  ∀ w', (hitGame K).Step w e w' → w'.gameMode.lives < w.gameMode.lives →
    ∀ es v, (hitGame K).Run w' es v →
      (v.time < w.time + w.gameMode.invincibilityDuration → v.character.bIsInvincible = true) ∧
      ∀ f v', (hitGame K).Step v f v' → v'.gameMode.lives < v.gameMode.lives →
        w.time + w.gameMode.invincibilityDuration ≤ v.time

/-- When the hit strikes a vulnerable runner, no timer of an earlier hit is pending that is due before its own. -/
def NoEarlierTimer (w : World K) (e : Event K) : Prop :=
  StrikesVulnerable w e → ∀ τ ∈ w.timers, LowersShield τ → w.time + w.gameMode.invincibilityDuration ≤ τ.due

/-- Where no earlier timer is pending, the shield lasts: nothing that comes after can take it down. -/
theorem Timed.shieldLasts {w : World K} {e : Event K} (h : Timed w) (hclear : NoEarlierTimer w e) :
    ShieldLasts w e := by
  intro w' hs hcost es v hrun
  have hstrikes := (costsLife_iff (Machine.restrict_step.mp hs).1).mp hcost
  have hstart : ShieldedFrom w.time w.gameMode.invincibilityDuration w' := by
    rcases hitStep_cases hs with ⟨_, hnot⟩ | ⟨o, rfl, _⟩ | ⟨_, _, _, _, hnot⟩ | ⟨_, _, _, _, _, hnot⟩
    · exact absurd hstrikes hnot
    · obtain ⟨htime, htimers, hup, hduration⟩ := h.struck_facts o
      refine ⟨h.step hs, hduration, htime.ge, ?_, fun _ => hup⟩
      rw [htimers]
      intro τ hτ hlowers
      rcases List.mem_append.mp hτ with hold | hnew
      · exact hclear hstrikes τ hold hlowers
      · rw [List.mem_singleton.mp hnew]
    · exact absurd hstrikes hnot
    · exact absurd hstrikes hnot
  have hv := hrun.invariant (fun _ _ _ hs hx => hx.step hs) hstart
  refine ⟨hv.up, ?_⟩
  intro f v' hf hcost'
  by_contra hsoon
  have hup := hv.up (not_le.mp hsoon)
  have hstrikes' := (costsLife_iff (Machine.restrict_step.mp hf).1).mp hcost'
  cases f with
  | hit o other => exact absurd (hstrikes'.2.2.2.symm.trans hup) Bool.false_ne_true
  | _ => exact hstrikes'

/-- **The shield of a hit lasts its full duration exactly when no earlier timer is pending.** -/
theorem Timed.shieldLasts_iff {w : World K} {e : Event K} (h : Timed w) :
    ShieldLasts w e ↔ NoEarlierTimer w e := by
  refine ⟨?_, h.shieldLasts⟩
  intro hlasts hstrikes τ hτ hlowers
  by_contra hstale
  cases e with
  | hit o other =>
    have hvulnerable := hstrikes
    obtain ⟨hown, htag, hcast, _⟩ := hvulnerable
    have hs : (hitGame K).Step w (.hit o other) (w.struck o) := by
      refine Machine.restrict_step.mpr ⟨⟨trivial, ?_⟩, trivial⟩
      exact onCollisionBoxOverlap_eq_ok.mpr (.inr ⟨⟨hown, htag, hcast⟩, rfl⟩)
    obtain ⟨_, htimers, _⟩ := h.struck_facts o
    have hmem : τ ∈ (w.struck o).timers := by
      rw [htimers]
      exact List.mem_append_left _ hτ
    obtain ⟨es, v, hrun, hsoon, hdown⟩ := (h.step hs).exists_run_down _ rfl ⟨τ, hmem, hlowers, not_le.mp hstale⟩
    have hcost := (costsLife_iff (Machine.restrict_step.mp hs).1).mpr hstrikes
    exact absurd (hdown.symm.trans ((hlasts _ hs hcost es v hrun).1 hsoon)) Bool.false_ne_true
  | _ => exact hstrikes

/-! ## From `BeginPlay` -/

/-- `BeginPlay` sets two timers, and neither is the shield's. -/
theorem Initial.clock {w w₀ : World K} {a : BeginPlayAnswers K} (init : w.Initial)
    (begun : w.beginPlay a = .ok w₀) (player : a.player.isSome = true) :
    w₀.gameMode.player.isSome = true ∧
      w₀.gameMode.invincibilityDuration = w.gameMode.invincibilityDuration ∧
      Timer.Quiet w₀.timers w₀.time ∧ ∀ τ ∈ w₀.timers, ∀ value, τ.action ≠ .setInvincible value := by
  obtain ⟨c, hc⟩ := beginPlay_class begun
  have hsame := SameClock.of_onlyTiles (beginPlay_onlyTiles begun hc)
  have htimers : w₀.timers = [⟨w.time + 1 / 5, .togglePhysics false⟩, ⟨w.time + 3 / 10, .togglePhysics true⟩] := by
    rw [hsame.timers]
    show w.timers ++ _ = _
    rw [init.timers, List.nil_append]
  have htime : w₀.time = w.time := hsame.time
  refine ⟨?_, hsame.invincibilityDuration, ?_, ?_⟩
  · rw [hsame.player]
    show (a.player.or w.gameMode.player).isSome = true
    rw [Option.isSome_or, player, Bool.true_or]
  · rw [htimers, htime]
    intro τ hτ
    simp only [List.mem_cons, List.not_mem_nil, or_false] at hτ
    rcases hτ with rfl | rfl
    · exact le_add_of_nonneg_right (by positivity)
    · exact le_add_of_nonneg_right (by positivity)
  · rw [htimers]
    intro τ hτ value hvalue
    simp only [List.mem_cons, List.not_mem_nil, or_false] at hτ
    rcases hτ with rfl | rfl
    · cases hvalue
    · cases hvalue

theorem Initial.timed {w w₀ : World K} {a : BeginPlayAnswers K} (init : w.Initial)
    (begun : w.beginPlay a = .ok w₀) (player : a.player.isSome = true)
    (duration : 0 < w.gameMode.invincibilityDuration) : Timed w₀ := by
  obtain ⟨hplayer, hduration, hquiet, hnone⟩ := init.clock begun player
  exact ⟨hplayer, hduration ▸ duration, hquiet, fun τ hτ value hvalue => absurd hvalue (hnone τ hτ value)⟩

/-- **Each hit of a run that costs a life protects the player for the full duration, exactly when each of them
came with no timer of an earlier hit pending.** -/
theorem shield_lasts_iff {w w₀ : World K} {a : BeginPlayAnswers K} {es : List (Event K)} (init : w.Initial)
    (begun : w.beginPlay a = .ok w₀) (player : a.player.isSome = true)
    (duration : 0 < w.gameMode.invincibilityDuration) :
    (hitGame K).Along ShieldLasts w₀ es ↔ (hitGame K).Along NoEarlierTimer w₀ es := by
  have hstart := init.timed begun player duration
  have hall : ∀ {es₁ v}, (hitGame K).Run w₀ es₁ v → Timed v := fun hv =>
    hv.invariant (fun _ _ _ hs hx => hx.step hs) hstart
  constructor
  · intro h es₁ e es₂ v hsplit hv
    exact (hall hv).shieldLasts_iff.mp (h es₁ e es₂ v hsplit hv)
  · intro h es₁ e es₂ v hsplit hv
    exact (hall hv).shieldLasts_iff.mpr (h es₁ e es₂ v hsplit hv)

/-- Two tiles with two obstacles each. -/
def fourObstacles : World ℚ := started (.ofOffsets 0 0 0 0 0) 2 (some ()) .full

theorem beginPlay_fourObstacles :
    (World.fresh (.ofOffsets 0 0 0 0 0) 2).beginPlay ⟨some (), true, fun _ => .full⟩ = .ok fourObstacles :=
  beginPlay_fresh _ 2 _ TileDraw.safe_full

/-- A hit that costs a life, and a second later one that does not. The timer of the first has fired, that of the
second is pending. -/
def twoHits : List (Event ℚ) :=
  [.advance (1 / 5), .fire 0, .advance (1 / 10), .fire 0, .hit 0 .runner, .advance 1, .hit 1 .runner, .advance 1,
    .fire 0, .advance (1 / 5)]

/-- The pending timer fires, and there is time for another hit. -/
def tooEarly : List (Event ℚ) := [.advance (4 / 5), .fire 0, .advance (1 / 10)]

theorem shield_lasts_iff_twoHits :
    (hitGame ℚ).Along ShieldLasts fourObstacles (twoHits ++ [.hit 2 .runner]) ↔
      (hitGame ℚ).Along NoEarlierTimer fourObstacles (twoHits ++ [.hit 2 .runner]) :=
  shield_lasts_iff (World.fresh_initial _ 2) beginPlay_fourObstacles rfl (by decide +kernel)

theorem exists_hitRun (es : List (Event ℚ)) (hnot : ∀ e ∈ es, e.NotToggled) {t d : ℚ} {n : ℤ}
    (h : ((game ℚ).exec fourObstacles es).map
      (fun u => (u.time, u.gameMode.invincibilityDuration, u.gameMode.lives)) = some (t, d, n)) :
    ∃ u, (hitGame ℚ).Run fourObstacles es u ∧ u.time = t ∧ u.gameMode.invincibilityDuration = d ∧
      u.gameMode.lives = n := by
  obtain ⟨u, hu, heq⟩ := Option.map_eq_some_iff.mp h
  cases heq
  exact ⟨u, (Machine.exec_eq_some.mp hu).restrict_of_forall fun _ e he => hnot e he, rfl, rfl, rfl⟩

/-- With the default duration of 2, the third hit and the fourth both cost a life, 0.9 apart. -/
theorem not_hits_apart :
    ¬ ∀ (w w₀ w₁ w₁' w₂ w₂' : World ℚ) (a : BeginPlayAnswers ℚ) (es₁ es₂ : List (Event ℚ)) (e f : Event ℚ),
      w.Initial → w.beginPlay a = .ok w₀ → a.player.isSome = true → 0 < w.gameMode.invincibilityDuration →
      (hitGame ℚ).Run w₀ es₁ w₁ → (hitGame ℚ).Step w₁ e w₁' → w₁'.gameMode.lives < w₁.gameMode.lives →
      (hitGame ℚ).Run w₁' es₂ w₂ → (hitGame ℚ).Step w₂ f w₂' → w₂'.gameMode.lives < w₂.gameMode.lives →
      w₁.time + w₁.gameMode.invincibilityDuration ≤ w₂.time := by
  intro h
  have hnot : ∀ e ∈ twoHits ++ [.hit 2 .runner] ++ tooEarly ++ [.hit 3 .runner], e.NotToggled := by
    simp [twoHits, tooEarly, Event.NotToggled]
  have hnot₃ := fun e he => hnot e (List.mem_append_left _ he)
  have hnot₂ := fun e he => hnot₃ e (List.mem_append_left _ he)
  have hnot₁ := fun e he => hnot₂ e (List.mem_append_left _ he)
  obtain ⟨w₁, hrun₁, htime₁, hduration, hlives₁⟩ :=
    exists_hitRun twoHits hnot₁ (t := 5 / 2) (d := 2) (n := 2) (by decide +kernel)
  obtain ⟨w₁', hrun₁', _, _, hlives₁'⟩ := exists_hitRun _ hnot₂ (t := 5 / 2) (d := 2) (n := 1) (by decide +kernel)
  obtain ⟨w₂, hrun₂, htime₂, _, hlives₂⟩ := exists_hitRun _ hnot₃ (t := 17 / 5) (d := 2) (n := 1) (by decide +kernel)
  obtain ⟨w₂', hrun₂', _, _, hlives₂'⟩ := exists_hitRun _ hnot (t := 17 / 5) (d := 2) (n := 0) (by decide +kernel)
  have hapart := h _ _ w₁ w₁' w₂ w₂' _ twoHits tooEarly _ _ (World.fresh_initial _ 2) beginPlay_fourObstacles rfl
    (by decide +kernel) hrun₁ (Machine.run_singleton.mp (hrun₁.rest hrun₁')) (by rw [hlives₁, hlives₁']; decide)
    (hrun₁'.rest hrun₂) (Machine.run_singleton.mp (hrun₂.rest hrun₂')) (by rw [hlives₂, hlives₂']; decide)
  rw [htime₁, hduration, htime₂] at hapart
  norm_num at hapart

end Field

end World

end EndlessRunner
