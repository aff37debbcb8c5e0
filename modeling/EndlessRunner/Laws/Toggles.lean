import EndlessRunner.Laws.Invincibility

/-!
# What is left of the invincibility

A call of `TogglePlayerInvincibility` sets the flag to its argument, and a timer will set it to the negation, if the
duration is positive. So a call with false raises the shield in the end. `World.shield_ends_iff` says when the last
call of a run is sure to leave the player vulnerable: what happened before it plays a part only through a timer that
is due together with its own.
-/

set_option autoImplicit false

namespace EndlessRunner

open Lib (Machine Timer)

variable {K : Type} [Field K] [LinearOrder K]

/-- The game without calls of `TogglePlayerInvincibility`. -/
def untoggledGame (K : Type) [Field K] [LinearOrder K] : Machine (World K) (Event K) Fault :=
  (game K).restrict fun _ e => e.toggles = none

namespace World

/-! ## The clock of a game with calls -/

/-- The timer sets the flag to `value`. -/
def Sets (value : Bool) (τ : Timer K TimerAction) : Prop := τ.action = .setInvincible value

/-- The clock is not ahead of its timers, and a timer that sets the flag is due within the duration. -/
structure Clocked (w : World K) : Prop where
  player : w.gameMode.player.isSome = true
  duration : 0 ≤ w.gameMode.invincibilityDuration
  quiet : Timer.Quiet w.timers w.time
  within : ∀ τ ∈ w.timers, ∀ value, Sets value τ →
    0 < w.gameMode.invincibilityDuration ∧ τ.due ≤ w.time + w.gameMode.invincibilityDuration

variable [IsStrictOrderedRing K]

theorem Clocked.step {w w' : World K} {e : Event K} (h : Clocked w) (hs : (game K).Step w e w') : Clocked w' := by
  obtain ⟨hplayer, hkept, hquiet⟩ := clock_step h.player h.duration h.quiet hs
  refine ⟨hplayer, hkept ▸ h.duration, hquiet, ?_⟩
  rw [hkept]
  rcases toggleStep_cases h.player hs with ⟨_, hsame⟩ | ⟨value, _, hcalled⟩ | ⟨_, d, hd, _, rfl⟩ | ⟨_, i, τ, _, _, rfl⟩
  · rw [hsame.timers, hsame.time]
    exact h.within
  · rw [hcalled.timers, hcalled.time]
    split_ifs with hduration
    · intro τ hτ b hb
      rcases List.mem_append.mp hτ with hold | hnew
      · exact h.within τ hold b hb
      · rw [List.mem_singleton.mp hnew]
        exact ⟨hduration, le_rfl⟩
    · exact h.within
  · intro τ hτ b hb
    obtain ⟨hduration, hle⟩ := h.within τ hτ b hb
    exact ⟨hduration, hle.trans (add_le_add_left (le_add_of_nonneg_right hd) _)⟩
  · obtain ⟨htime, htimers, _, _⟩ := fired_facts w i τ.action
    rw [htime, htimers]
    intro σ hσ
    exact h.within σ (List.mem_of_mem_eraseIdx hσ)

theorem Clocked.untoggled {w w' : World K} {es : List (Event K)} (h : Clocked w)
    (hr : (untoggledGame K).Run w es w') : Clocked w' :=
  hr.invariant (fun _ _ _ hs hx => hx.step (Machine.restrict_step.mp hs).1) h

/-! ## The shield goes down -/

/-- A timer will take the shield down at `limit`, after all that raise it; or it is down, and none raises it. -/
structure GoesDown (limit : K) (w : World K) : Prop where
  clocked : Clocked w
  raised : ∀ τ ∈ w.timers, Sets true τ → τ.due < limit
  lowered : ⟨limit, .setInvincible false⟩ ∈ w.timers ∨
    w.character.bIsInvincible = false ∧ ∀ τ ∈ w.timers, ¬ Sets true τ

theorem GoesDown.step {limit : K} {w w' : World K} {e : Event K} (h : GoesDown limit w)
    (hs : (untoggledGame K).Step w e w') : GoesDown limit w' := by
  obtain ⟨hgame, hnone⟩ := Machine.restrict_step.mp hs
  have hclocked := h.clocked.step hgame
  rcases toggleStep_cases h.clocked.player hgame with ⟨_, hsame⟩ | ⟨value, hcall, _⟩ | ⟨_, d, _, _, rfl⟩ |
    ⟨_, i, τ, hτ, hdue, rfl⟩
  · refine ⟨hclocked, ?_, ?_⟩
    · rw [hsame.timers]
      exact h.raised
    · rw [hsame.timers, hsame.bIsInvincible]
      exact h.lowered
  · cases hnone.symm.trans hcall
  · exact ⟨hclocked, h.raised, h.lowered⟩
  · obtain ⟨_, htimers, _, hflag⟩ := fired_facts w i τ.action
    have hrest : ∀ σ ∈ (w.fired i τ.action).timers, σ ∈ w.timers := by
      rw [htimers]
      exact fun σ hσ => List.mem_of_mem_eraseIdx hσ
    refine ⟨hclocked, fun σ hσ => h.raised σ (hrest σ hσ), ?_⟩
    rcases h.lowered with hpending | ⟨hdown, hnever⟩
    · by_cases hself : τ = ⟨limit, .setInvincible false⟩
      · -- it fires: what raises the shield was due before
        subst hself
        refine .inr ⟨rfl, fun σ hσ hraises => ?_⟩
        have hlate : limit ≤ σ.due := hdue.le.trans (h.clocked.quiet σ (hrest σ hσ))
        exact absurd (h.raised σ (hrest σ hσ) hraises) (not_lt.mpr hlate)
      · rw [htimers]
        exact .inl (Timer.mem_eraseIdx_of_ne hτ hpending hself)
    · refine .inr ⟨?_, fun σ hσ => hnever σ (hrest σ hσ)⟩
      rcases hflag with hsame | ⟨value, haction, hvalue⟩
      · exact hsame.trans hdown
      · cases value with
        | false => exact hvalue
        | true => exact absurd haction (hnever τ (List.mem_of_getElem? hτ))

omit [IsStrictOrderedRing K] in
/-- After the limit the shield is down. -/
theorem GoesDown.down {limit : K} {w : World K} (h : GoesDown limit w) (hlate : limit < w.time) :
    w.character.bIsInvincible = false := by
  rcases h.lowered with hpending | ⟨hdown, _⟩
  · exact absurd (h.clocked.quiet _ hpending) (not_le.mpr hlate)
  · exact hdown

/-! ## The shield stays up -/

/-- The shield is up, and no pending timer sets the flag. -/
structure UpForGood (limit : K) (w : World K) : Prop where
  clocked : Clocked w
  up : w.character.bIsInvincible = true
  late : limit ≤ w.time
  unset : ∀ τ ∈ w.timers, ∀ value, ¬ Sets value τ

/-- A timer raises the shield at `limit`, and none sets the flag later. -/
structure RaisedLast (limit : K) (w : World K) : Prop where
  clocked : Clocked w
  raised : ∃ τ ∈ w.timers, Sets true τ ∧ τ.due = limit
  within : ∀ τ ∈ w.timers, ∀ value, Sets value τ → τ.due ≤ limit

/-- The clock runs to a timer, and the timer fires. -/
theorem Clocked.run_fire {w : World K} (h : Clocked w) {i : ℕ} {σ : Timer K TimerAction}
    (hσ : w.timers[i]? = some σ) (hquiet : Timer.Quiet w.timers σ.due) :
    (untoggledGame K).Run w [.advance (σ.due - w.time), .fire i]
      (({ w with time := σ.due } : World K).fired i σ.action) := by
  have hlater := h.quiet σ (List.mem_of_getElem? hσ)
  have hclock := step_to_timer hlater hquiet
  have hfire := step_fire (w := { w with time := σ.due }) h.player hσ rfl
  exact .cons (Machine.restrict_step.mpr ⟨hclock, rfl⟩)
    (Machine.run_singleton.mpr (Machine.restrict_step.mpr ⟨hfire, rfl⟩))

/-- What is pending can fire, and leaves the shield up. The induction is on how many timers are pending. -/
theorem UpForGood.exists_run (n : ℕ) : ∀ {w : World K} {limit : K}, w.timers.length = n → UpForGood limit w →
    ∃ es v, (untoggledGame K).Run w es v ∧ UpForGood limit v ∧ v.timers = [] := by
  induction n with
  | zero =>
    intro w limit hlength h
    exact ⟨[], w, .nil w, h, List.length_eq_zero_iff.mp hlength⟩
  | succ n ih =>
    intro w limit hlength h
    have hne : w.timers ≠ [] := List.ne_nil_of_length_eq_add_one hlength
    obtain ⟨i, σ, hσ, hquiet⟩ := Timer.exists_earliest hne
    have hmem := List.mem_of_getElem? hσ
    have hrun := h.clocked.run_fire hσ hquiet
    obtain ⟨htime, htimers, _, hflag⟩ := fired_facts ({ w with time := σ.due } : World K) i σ.action
    have hlength' := length_fired (w := { w with time := σ.due }) hσ hlength
    have hnext : UpForGood limit (({ w with time := σ.due } : World K).fired i σ.action) := by
      refine ⟨h.clocked.untoggled hrun, ?_, ?_, ?_⟩
      · rcases hflag with hsame | ⟨value, haction, _⟩
        · exact hsame.trans h.up
        · exact absurd haction (h.unset σ hmem value)
      · rw [htime]
        exact h.late.trans (h.clocked.quiet σ hmem)
      · rw [htimers]
        exact fun τ hτ => h.unset τ (List.mem_of_mem_eraseIdx hτ)
    obtain ⟨es, v, hrest, hv⟩ := ih hlength' hnext
    exact ⟨_, v, hrun.append hrest, hv⟩

/-- The timer at the limit can be the last to fire of all that set the flag. The induction is on how many timers are
pending. -/
theorem RaisedLast.exists_run (n : ℕ) : ∀ {w : World K} {limit : K}, w.timers.length = n → RaisedLast limit w →
    ∃ es v, (untoggledGame K).Run w es v ∧ UpForGood limit v := by
  induction n with
  | zero =>
    intro w limit hlength h
    obtain ⟨τ, hτ, _⟩ := h.raised
    rw [List.length_eq_zero_iff.mp hlength] at hτ
    exact absurd hτ List.not_mem_nil
  | succ n ih =>
    intro w limit hlength h
    obtain ⟨τ, hmem, hraises, rfl⟩ := h.raised
    obtain ⟨i, hτ⟩ := List.getElem?_of_mem hmem
    rcases Timer.exists_other_first hτ with ⟨k, ρ, hρ, hk, hquiet⟩ | ⟨hquiet, hafter⟩
    · have hrun := h.clocked.run_fire hρ hquiet
      obtain ⟨_, htimers, _, _⟩ := fired_facts ({ w with time := ρ.due } : World K) k ρ.action
      have hlength' := length_fired (w := { w with time := ρ.due }) hρ hlength
      have hnext : RaisedLast τ.due (({ w with time := ρ.due } : World K).fired k ρ.action) := by
        refine ⟨h.clocked.untoggled hrun, ⟨τ, ?_, hraises, rfl⟩, ?_⟩
        · rw [htimers]
          exact List.mem_eraseIdx_iff_getElem?.mpr ⟨i, hk.symm, hτ⟩
        · rw [htimers]
          exact fun σ hσ => h.within σ (List.mem_of_mem_eraseIdx hσ)
      obtain ⟨es, v, hrest, hv⟩ := ih hlength' hnext
      exact ⟨_, v, hrun.append hrest, hv⟩
    · have hrun := h.clocked.run_fire hτ hquiet
      refine ⟨_, _, hrun, h.clocked.untoggled hrun, ?_, ?_, ?_⟩
      · rw [hraises]
        rfl
      · rw [hraises]
        exact le_rfl
      · -- what is left is due after the limit, so it does not set the flag
        intro σ hσ value hsets
        rw [hraises] at hσ
        obtain ⟨k, hk, hσ⟩ := List.mem_eraseIdx_iff_getElem?.mp hσ
        have hle := h.within σ (List.mem_of_getElem? hσ) value hsets
        exact absurd (hafter k σ hσ hk) (not_lt.mpr hle)

/-! ## The last call -/

/-- The last call lowers the shield in the end: with a positive duration it is a call with true, and no timer of an
earlier call with false is due together with its own; without one it is a call with false. -/
def EndsLowered (w : World K) (value : Bool) : Prop :=
  (0 < w.gameMode.invincibilityDuration ∧ value = true ∧
      ⟨w.time + w.gameMode.invincibilityDuration, .setInvincible true⟩ ∉ w.timers) ∨
    (w.gameMode.invincibilityDuration = 0 ∧ value = false)

omit [IsStrictOrderedRing K] in
/-- When the last call lowers the shield in the end, it goes down for good. -/
theorem Called.goesDown {w w' : World K} {value : Bool} (h : Clocked w) (h' : Clocked w')
    (hcalled : Called value w w') (hends : EndsLowered w value) :
    GoesDown (w.time + w.gameMode.invincibilityDuration) w' := by
  rcases hends with ⟨hduration, rfl, hclear⟩ | ⟨hduration, rfl⟩
  · have htimers := hcalled.timers
    rw [if_pos hduration] at htimers
    refine ⟨h', ?_, .inl ?_⟩
    · rw [htimers]
      intro τ hτ hraises
      rcases List.mem_append.mp hτ with hold | hnew
      · refine lt_of_le_of_ne (h.within τ hold true hraises).2 ?_
        intro hdue
        have heq : τ = ⟨w.time + w.gameMode.invincibilityDuration, .setInvincible true⟩ := by
          rw [← hdue, ← show τ.action = .setInvincible true from hraises]
        exact hclear (heq ▸ hold)
      · rw [List.mem_singleton.mp hnew] at hraises
        cases hraises
    · rw [htimers]
      exact List.mem_append_right _ (List.mem_singleton.mpr rfl)
  · have htimers := hcalled.timers
    rw [if_neg hduration.not_gt] at htimers
    have hunset : ∀ τ ∈ w'.timers, ¬ Sets true τ := by
      rw [htimers]
      exact fun τ hτ hsets => hduration.not_gt (h.within τ hτ true hsets).1
    exact ⟨h', fun τ hτ hsets => absurd hsets (hunset τ hτ), .inr ⟨hcalled.flag, hunset⟩⟩

/-- When the last call does not lower the shield in the end, what is pending can leave it up. -/
theorem Called.exists_up {w w' : World K} {value : Bool} (h : Clocked w) (h' : Clocked w')
    (hcalled : Called value w w') (hends : ¬ EndsLowered w value) :
    ∃ es v, (untoggledGame K).Run w' es v ∧ UpForGood (w.time + w.gameMode.invincibilityDuration) v := by
  rcases h.duration.lt_or_eq with hduration | hduration
  · have htimers := hcalled.timers
    rw [if_pos hduration] at htimers
    refine RaisedLast.exists_run _ rfl ⟨h', ?_, ?_⟩
    · rw [htimers]
      cases value with
      | false => exact ⟨_, List.mem_append_right _ (List.mem_singleton.mpr rfl), rfl, rfl⟩
      | true =>
        have hpending : ⟨w.time + w.gameMode.invincibilityDuration, .setInvincible true⟩ ∈ w.timers := by
          by_contra hclear
          exact hends (.inl ⟨hduration, rfl, hclear⟩)
        exact ⟨_, List.mem_append_left _ hpending, rfl, rfl⟩
    · intro τ hτ b hb
      rw [← hcalled.time, ← hcalled.invincibilityDuration]
      exact (h'.within τ hτ b hb).2
  · have hup : value = true := by
      by_contra hdown
      exact hends (.inr ⟨hduration.symm, Bool.eq_false_iff.mpr hdown⟩)
    refine ⟨[], w', .nil w', h', hcalled.flag.trans hup, ?_, ?_⟩
    · rw [← hduration, add_zero, hcalled.time]
    · intro τ hτ b hb
      have hpositive := (h'.within τ hτ b hb).1
      rw [hcalled.invincibilityDuration] at hpositive
      exact hduration.not_lt hpositive

/-- **Once the duration of the last call is over, the player is sure to be vulnerable exactly when the call lowers
the shield in the end.** -/
theorem shield_ends_iff {w w₀ v v' : World K} {a : BeginPlayAnswers K} {es : List (Event K)} {e : Event K}
    {value : Bool} (init : w.Initial) (begun : w.beginPlay a = .ok w₀) (player : a.player.isSome = true)
    (duration : 0 ≤ w.gameMode.invincibilityDuration) (run : (game K).Run w₀ es v)
    (last : (game K).Step v e v') (call : e.toggles = some value) :
    (∀ fs u, (untoggledGame K).Run v' fs u → v.time + v.gameMode.invincibilityDuration < u.time →
      u.character.bIsInvincible = false) ↔ EndsLowered v value := by
  obtain ⟨hplayer, hduration, hquiet, hnone⟩ := init.clock begun player
  have hstart : Clocked w₀ :=
    ⟨hplayer, hduration ▸ duration, hquiet, fun τ hτ b hb => absurd hb (hnone τ hτ b)⟩
  have hv : Clocked v := run.invariant (fun _ _ _ hs hx => hx.step hs) hstart
  have hv' := hv.step last
  have hcalled : Called value v v' := by
    rcases toggleStep_cases hv.player last with ⟨hnot, _⟩ | ⟨b, hb, hcalled⟩ | ⟨hnot, _⟩ | ⟨hnot, _⟩
    · cases hnot.symm.trans call
    · cases hb.symm.trans call
      exact hcalled
    · cases hnot.symm.trans call
    · cases hnot.symm.trans call
  constructor
  · intro hdown
    by_contra hends
    obtain ⟨fs, u, hfs, hu⟩ := hcalled.exists_up hv hv' hends
    obtain ⟨gs, x, hgs, hx, hempty⟩ := UpForGood.exists_run _ rfl hu
    have hwait : (untoggledGame K).Step x (.advance 1) { x with time := x.time + 1 } := by
      refine Machine.restrict_step.mpr ⟨⟨⟨zero_le_one, ?_⟩, rfl⟩, rfl⟩
      rw [hempty]
      exact fun τ hτ => absurd hτ List.not_mem_nil
    have hlate : v.time + v.gameMode.invincibilityDuration < x.time + 1 :=
      lt_of_le_of_lt hx.late (lt_add_one _)
    have hflag := hdown _ _ ((hfs.append hgs).snoc hwait) hlate
    exact Bool.false_ne_true (hflag.symm.trans hx.up)
  · intro hends fs u hfs hlate
    have hgoes := hcalled.goesDown hv hv' hends
    exact (hfs.invariant (fun _ _ _ hs hx => hx.step hs) hgoes).down hlate

/-- A call of `TogglePlayerInvincibility` right after `BeginPlay`. -/
theorem step_toggle_fourObstacles (value : Bool) :
    (game ℚ).Step fourObstacles (.toggleInvincibility value) (fourObstacles.togglePlayerInvincibility value) :=
  ⟨trivial, rfl⟩

/-- A call with true at the class defaults. -/
theorem shield_ends_after_true :
    EndsLowered fourObstacles true ∧
    ∀ fs u, (untoggledGame ℚ).Run (fourObstacles.togglePlayerInvincibility true) fs u →
      fourObstacles.time + fourObstacles.gameMode.invincibilityDuration < u.time →
      u.character.bIsInvincible = false := by
  have hends : EndsLowered fourObstacles true := .inl ⟨by decide +kernel, rfl, by decide +kernel⟩
  exact ⟨hends, (shield_ends_iff (World.fresh_initial _ 2) beginPlay_fourObstacles rfl (by decide +kernel) (.nil _)
    (step_toggle_fourObstacles true) rfl).mpr hends⟩

/-- Every timer of a single call fires, and a second goes by. -/
def threeSeconds : List (Event ℚ) :=
  [.advance (1 / 5), .fire 0, .advance (1 / 10), .fire 0, .advance (17 / 10), .fire 0, .advance 1]

/-- A single call with false leaves the player invincible when the duration is over. -/
theorem not_shield_ends :
    ¬ ∀ (w w₀ v v' u : World ℚ) (a : BeginPlayAnswers ℚ) (es fs : List (Event ℚ)) (e : Event ℚ) (value : Bool),
      w.Initial → w.beginPlay a = .ok w₀ → a.player.isSome = true → 0 ≤ w.gameMode.invincibilityDuration →
      (game ℚ).Run w₀ es v → (game ℚ).Step v e v' → e.toggles = some value →
      (untoggledGame ℚ).Run v' fs u → v.time + v.gameMode.invincibilityDuration < u.time →
      u.character.bIsInvincible = false := by
  intro h
  have hexec : ((game ℚ).exec (fourObstacles.togglePlayerInvincibility false) threeSeconds).map
      (fun u => (u.time, u.character.bIsInvincible)) = some (3, true) := by
    decide +kernel
  obtain ⟨u, hu, heq⟩ := Option.map_eq_some_iff.mp hexec
  obtain ⟨htime, hflag⟩ := Prod.mk.inj heq
  have hrun : (untoggledGame ℚ).Run (fourObstacles.togglePlayerInvincibility false) threeSeconds u :=
    (Machine.exec_eq_some.mp hu).restrict_of_forall (by simp [threeSeconds, Event.toggles])
  have hlate : fourObstacles.time + fourObstacles.gameMode.invincibilityDuration < u.time := by
    rw [htime]
    decide +kernel
  have hdown := h _ _ _ _ u _ [] _ _ _ (World.fresh_initial _ 2) beginPlay_fourObstacles rfl
    (by decide +kernel) (.nil _) (step_toggle_fourObstacles false) rfl hrun hlate
  exact Bool.false_ne_true (hdown.symm.trans hflag)

end World

end EndlessRunner
