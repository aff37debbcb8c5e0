import Mathlib.Data.List.Basic
import Mathlib.Logic.Relation

/-!
# Machines that are guarded, deterministic and fallible

A `Machine` offers events to a state. An event may be enabled or not (a guard of the environment:
a timer may not fire before it is due), and an enabled event either leads to one next state or
stops the program with a fault. A `Run` is a finite sequence of events none of which faulted.

`Machine.restrict` keeps the events that meet a further condition on the state before them, so
that "every step of the run meets `P`" is a run of the restricted machine. `Run.invariant` is the
one induction a safety proof needs.
-/

set_option autoImplicit false

namespace EndlessRunner.Lib

/-- A machine over states `σ`, events `ε` and faults `φ`. -/
structure Machine (σ ε φ : Type*) where
  enabled : σ → ε → Prop
  step : σ → ε → Except φ σ

namespace Machine

variable {σ ε φ : Type*} {M : Machine σ ε φ}

/-- One step that does not fault. -/
def Step (M : Machine σ ε φ) (s : σ) (e : ε) (t : σ) : Prop := M.enabled s e ∧ M.step s e = .ok t

/-- A finite run, as the events taken from its first state to its last. -/
inductive Run (M : Machine σ ε φ) : σ → List ε → σ → Prop
  | nil (s : σ) : M.Run s [] s
  | cons {s t u : σ} {e : ε} {es : List ε} : M.Step s e t → M.Run t es u → M.Run s (e :: es) u

/-- The same machine, with its events limited to those that meet `P` in the state they are taken. -/
def restrict (M : Machine σ ε φ) (P : σ → ε → Prop) : Machine σ ε φ where
  enabled s e := M.enabled s e ∧ P s e
  step := M.step

theorem Step.det {s t t' : σ} {e : ε} (h : M.Step s e t) (h' : M.Step s e t') : t = t' :=
  Except.ok.inj (h.2.symm.trans h'.2)

theorem run_nil {s t : σ} : M.Run s [] t ↔ s = t :=
  ⟨fun h => by cases h; rfl, fun h => h ▸ .nil s⟩

theorem run_cons {s u : σ} {e : ε} {es : List ε} :
    M.Run s (e :: es) u ↔ ∃ t, M.Step s e t ∧ M.Run t es u :=
  ⟨fun h => by cases h with | cons h₁ h₂ => exact ⟨_, h₁, h₂⟩, fun ⟨_, h₁, h₂⟩ => .cons h₁ h₂⟩

theorem run_cons_of_step {s t u : σ} {e : ε} {es : List ε} (h : M.Step s e t) :
    M.Run s (e :: es) u ↔ M.Run t es u := by
  rw [run_cons]
  constructor
  · rintro ⟨v, hv, hrest⟩
    exact h.det hv ▸ hrest
  · exact fun hrest => ⟨t, h, hrest⟩

theorem run_singleton {s t : σ} {e : ε} : M.Run s [e] t ↔ M.Step s e t := by
  constructor
  · intro h
    obtain ⟨u, hu, ht⟩ := run_cons.mp h
    exact run_nil.mp ht ▸ hu
  · exact fun h => .cons h (.nil t)

theorem run_append {s u : σ} {es fs : List ε} :
    M.Run s (es ++ fs) u ↔ ∃ t, M.Run s es t ∧ M.Run t fs u := by
  induction es generalizing s with
  | nil => exact ⟨fun h => ⟨s, .nil s, h⟩, fun ⟨t, h, h'⟩ => run_nil.mp h ▸ h'⟩
  | cons e es ih =>
    constructor
    · intro h
      obtain ⟨v, hv, hrest⟩ := run_cons.mp h
      obtain ⟨t, ht, htu⟩ := ih.mp hrest
      exact ⟨t, .cons hv ht, htu⟩
    · rintro ⟨t, ht, htu⟩
      obtain ⟨v, hv, hrest⟩ := run_cons.mp ht
      exact .cons hv (ih.mpr ⟨t, hrest, htu⟩)

theorem Run.append {s t u : σ} {es fs : List ε} (h : M.Run s es t) (h' : M.Run t fs u) :
    M.Run s (es ++ fs) u :=
  run_append.mpr ⟨t, h, h'⟩

theorem Run.snoc {s t u : σ} {es : List ε} {e : ε} (h : M.Run s es t) (h' : M.Step t e u) :
    M.Run s (es ++ [e]) u :=
  h.append (run_singleton.mpr h')

/-- A run's events decide its last state. -/
theorem Run.det {s t t' : σ} {es : List ε} (h : M.Run s es t) (h' : M.Run s es t') : t = t' := by
  induction h with
  | nil s => exact run_nil.mp h'
  | cons hstep _ ih =>
    obtain ⟨v, hv, hrest⟩ := run_cons.mp h'
    exact ih (hstep.det hv ▸ hrest)

/-- The rest of a run, from a state on its way. -/
theorem Run.rest {s t u : σ} {es fs : List ε} (h : M.Run s es t) (h' : M.Run s (es ++ fs) u) : M.Run t fs u := by
  obtain ⟨t', ht', hrest⟩ := run_append.mp h'
  exact h.det ht' ▸ hrest

/-- **The invariant rule**: what every step preserves, every run preserves. -/
theorem Run.invariant {I : σ → Prop} (hstep : ∀ s e t, M.Step s e t → I s → I t) {s t : σ}
    {es : List ε} (h : M.Run s es t) (hs : I s) : I t := by
  induction h with
  | nil s => exact hs
  | cons hst _ ih => exact ih (hstep _ _ _ hst hs)

/-- **The history rule**: what every step keeps up to date, every run does. -/
theorem Run.foldl {β : Type*} {R : σ → β → Prop} {f : β → ε → β}
    (hstep : ∀ s e t b, M.Step s e t → R s b → R t (f b e)) {s t : σ} {es : List ε} (h : M.Run s es t) :
    ∀ {b : β}, R s b → R t (es.foldl f b) := by
  induction h with
  | nil s => exact fun {b} hb => hb
  | cons hst _ ih => exact fun {b} hb => ih (hstep _ _ _ b hst hb)

/-! ## Properties that hold throughout a run -/

/-- The states a run passes through all have `I`, its first and last included. -/
def Throughout (M : Machine σ ε φ) (I : σ → Prop) (s : σ) (es : List ε) : Prop :=
  ∀ es₁ es₂ u, es = es₁ ++ es₂ → M.Run s es₁ u → I u

/-- The steps of a run all meet `P` in the state they are taken. -/
def Along (M : Machine σ ε φ) (P : σ → ε → Prop) (s : σ) (es : List ε) : Prop :=
  ∀ es₁ e es₂ u, es = es₁ ++ e :: es₂ → M.Run s es₁ u → P u e

theorem throughout_cons {I : σ → Prop} {s t : σ} {e : ε} {es : List ε} (h : M.Step s e t) :
    M.Throughout I s (e :: es) ↔ I s ∧ M.Throughout I t es := by
  constructor
  · refine fun hI => ⟨hI [] _ s rfl (.nil s), ?_⟩
    rintro es₁ es₂ u rfl hu
    exact hI (e :: es₁) es₂ u rfl (.cons h hu)
  · rintro ⟨hs, hI⟩ es₁ es₂ u hsplit hu
    cases hu with
    | nil => exact hs
    | cons hst hrest =>
      obtain ⟨rfl, rfl⟩ := List.cons.inj hsplit
      exact hI _ es₂ u rfl (h.det hst ▸ hrest)

theorem along_cons {P : σ → ε → Prop} {s t : σ} {e : ε} {es : List ε} (h : M.Step s e t) :
    M.Along P s (e :: es) ↔ P s e ∧ M.Along P t es := by
  constructor
  · refine fun hP => ⟨hP [] e es s rfl (.nil s), ?_⟩
    rintro es₁ e' es₂ u rfl hu
    exact hP (e :: es₁) e' es₂ u rfl (.cons h hu)
  · rintro ⟨hs, hP⟩ es₁ e' es₂ u hsplit hu
    cases hu with
    | nil =>
      obtain ⟨rfl, _⟩ := List.cons.inj hsplit
      exact hs
    | cons hst hrest =>
      obtain ⟨rfl, rfl⟩ := List.cons.inj hsplit
      exact hP _ e' es₂ u rfl (h.det hst ▸ hrest)

/-- What every step meets is met along every run. -/
theorem Run.along {P : σ → ε → Prop} (hP : ∀ s e t, M.Step s e t → P s e) {s t : σ} {es : List ε}
    (h : M.Run s es t) : M.Along P s es := by
  rintro es₁ e es₂ u rfl hu
  obtain ⟨v, hv, hrest⟩ := run_append.mp h
  obtain ⟨x, hst, _⟩ := run_cons.mp hrest
  exact hP u e x (hv.det hu ▸ hst)

/-- **The exactness rule**: when, under an invariant `J`, a step from a state with `I` leads to a state
with `I` exactly if it meets `P`, then a run has `I` throughout exactly if all its steps meet `P`. -/
theorem Run.throughout_iff {I J : σ → Prop} {P : σ → ε → Prop}
    (hJ : ∀ s e t, M.Step s e t → J s → J t)
    (hstep : ∀ s e t, M.Step s e t → J s → I s → (I t ↔ P s e))
    {s t : σ} {es : List ε} (h : M.Run s es t) (hs : J s) (hI : I s) :
    M.Throughout I s es ↔ M.Along P s es := by
  induction h with
  | nil s =>
    constructor
    · intro _ es₁ e es₂ u hsplit
      exact absurd hsplit (by simp)
    · intro _ es₁ es₂ u hsplit hu
      obtain ⟨rfl, _⟩ := List.append_eq_nil_iff.mp hsplit.symm
      exact run_nil.mp hu ▸ hI
  | @cons s t u e es hst hrest ih =>
    rw [throughout_cons hst, along_cons hst]
    have hiff := hstep s e t hst hs hI
    constructor
    · rintro ⟨_, hall⟩
      have ht : I t := hall [] es t rfl (.nil t)
      exact ⟨hiff.mp ht, (ih (hJ s e t hst hs) ht).mp hall⟩
    · rintro ⟨hp, hall⟩
      have ht : I t := hiff.mpr hp
      exact ⟨hI, (ih (hJ s e t hst hs) ht).mpr hall⟩

/-! ## Restriction -/

theorem restrict_step {P : σ → ε → Prop} {s t : σ} {e : ε} :
    (M.restrict P).Step s e t ↔ M.Step s e t ∧ P s e :=
  ⟨fun h => ⟨⟨h.1.1, h.2⟩, h.1.2⟩, fun h => ⟨⟨h.1.1, h.2⟩, h.1.2⟩⟩

theorem Run.of_restrict {P : σ → ε → Prop} {s t : σ} {es : List ε} (h : (M.restrict P).Run s es t) :
    M.Run s es t := by
  induction h with
  | nil s => exact .nil s
  | cons hst _ ih => exact .cons (restrict_step.mp hst).1 ih

/-- **A restricted run is a run whose steps all meet the condition.** -/
theorem restrict_run {P : σ → ε → Prop} {s t : σ} {es : List ε} :
    (M.restrict P).Run s es t ↔
      M.Run s es t ∧ M.Along P s es := by
  constructor
  · intro h
    refine ⟨h.of_restrict, ?_⟩
    rintro es₁ e es₂ u rfl hu
    obtain ⟨v, hv, hrest⟩ := run_append.mp h
    obtain ⟨_, hst, _⟩ := run_cons.mp hrest
    exact hv.of_restrict.det hu ▸ (restrict_step.mp hst).2
  · rintro ⟨h, hP⟩
    induction h with
    | nil s => exact .nil s
    | cons hst _ ih =>
      obtain ⟨hp, hrest⟩ := (along_cons hst).mp hP
      exact .cons (restrict_step.mpr ⟨hst, hp⟩) (ih hrest)

/-- A weaker condition is met too. -/
theorem Run.restrict_mono {P Q : σ → ε → Prop} (hPQ : ∀ s e, P s e → Q s e) {s t : σ} {es : List ε}
    (h : (M.restrict P).Run s es t) : (M.restrict Q).Run s es t := by
  induction h with
  | nil s => exact .nil s
  | cons hs _ ih =>
    obtain ⟨hstep, hP⟩ := restrict_step.mp hs
    exact .cons (restrict_step.mpr ⟨hstep, hPQ _ _ hP⟩) ih

/-- A condition on the events alone is met along a run when its events meet it. -/
theorem Run.restrict_of_forall {P : σ → ε → Prop} {s t : σ} {es : List ε} (h : M.Run s es t)
    (hP : ∀ u, ∀ e ∈ es, P u e) : (M.restrict P).Run s es t := by
  refine restrict_run.mpr ⟨h, ?_⟩
  rintro es₁ e es₂ u rfl _
  exact hP u e (List.mem_append_right _ List.mem_cons_self)

/-! ## What can be reached -/

/-- From each state with `I` some events lead to a state with `J`. -/
def Leads (M : Machine σ ε φ) (I J : σ → Prop) : Prop := ∀ s, I s → ∃ es t, M.Run s es t ∧ J t

theorem Leads.refl (I : σ → Prop) : M.Leads I I := fun s hs => ⟨[], s, .nil s, hs⟩

theorem Leads.trans {I J H : σ → Prop} (h : M.Leads I J) (h' : M.Leads J H) : M.Leads I H := by
  intro s hs
  obtain ⟨es, t, hst, ht⟩ := h s hs
  obtain ⟨fs, u, htu, hu⟩ := h' t ht
  exact ⟨es ++ fs, u, hst.append htu, hu⟩

/-- **The ranking rule**: what can always be brought one nearer can be reached. -/
theorem leads_of_rank {R : ℕ → σ → Prop} (h : ∀ n, M.Leads (R (n + 1)) (R n)) (n : ℕ) : M.Leads (R n) (R 0) := by
  induction n with
  | zero => exact Leads.refl (R 0)
  | succ n ih => exact (h n).trans ih

/-! ## Running a machine -/

/-- The state that a sequence of events leads to, if each is enabled and none faults. -/
def exec (M : Machine σ ε φ) [∀ s e, Decidable (M.enabled s e)] : σ → List ε → Option σ
  | s, [] => some s
  | s, e :: es =>
    if M.enabled s e then
      match M.step s e with
      | .ok t => M.exec t es
      | .error _ => none
    else none

theorem exec_eq_some [∀ s e, Decidable (M.enabled s e)] {s t : σ} {es : List ε} :
    M.exec s es = some t ↔ M.Run s es t := by
  induction es generalizing s with
  | nil => rw [run_nil, exec, Option.some.injEq]
  | cons e es ih =>
    rw [run_cons, exec]
    split_ifs with hen
    · cases hst : M.step s e with
      | error x =>
        constructor
        · intro h
          cases h
        · rintro ⟨u, hu, _⟩
          cases hst.symm.trans hu.2
      | ok u =>
        refine ih.trans ⟨fun h => ⟨u, ⟨hen, hst⟩, h⟩, ?_⟩
        rintro ⟨v, hv, hrest⟩
        cases hst.symm.trans hv.2
        exact hrest
    · constructor
      · intro h
        cases h
      · rintro ⟨u, hu, _⟩
        exact absurd hu.1 hen

/-- A sequence of events that can be executed is a run. -/
theorem exists_run_of_exec [∀ s e, Decidable (M.enabled s e)] (s : σ) (es : List ε)
    (h : (M.exec s es).isSome = true) : ∃ t, M.Run s es t :=
  (Option.isSome_iff_exists.mp h).imp fun _ => exec_eq_some.mp

/-! ## What a run puts out -/

/-- What the steps of a run put out, one after the other. -/
def collect {α : Type*} (M : Machine σ ε φ) (out : σ → ε → List α) : σ → List ε → List α
  | _, [] => []
  | s, e :: es =>
    match M.step s e with
    | .ok t => out s e ++ M.collect out t es
    | .error _ => []

theorem collect_cons {α : Type*} {out : σ → ε → List α} {s t : σ} {e : ε} (h : M.Step s e t) (es : List ε) :
    M.collect out s (e :: es) = out s e ++ M.collect out t es := by
  rw [collect, h.2]

/-- **The log rule**: what every step keeps true of a log, every run does. -/
theorem Run.logged {α : Type*} {R : σ → List α → Prop} {out : σ → ε → List α}
    (hstep : ∀ s e t log, M.Step s e t → R s log → R t (log ++ out s e)) {s t : σ} {es : List ε} (h : M.Run s es t) :
    ∀ {log : List α}, R s log → R t (log ++ M.collect out s es) := by
  induction h with
  | nil s =>
    intro log hlog
    rw [collect, List.append_nil]
    exact hlog
  | cons hst _ ih =>
    intro log hlog
    rw [collect_cons hst, ← List.append_assoc]
    exact ih (hstep _ _ _ log hst hlog)

/-- **Conservation**: where each step takes out of the store what it puts out and adds what comes in, so does a run. -/
theorem Run.balance {α : Type*} {store : σ → List α} {come go : σ → ε → List α}
    (hstep : ∀ s e t, M.Step s e t → (store s ++ come s e).Perm (go s e ++ store t)) {s t : σ} {es : List ε}
    (h : M.Run s es t) : (store s ++ M.collect come s es).Perm (M.collect go s es ++ store t) := by
  induction h with
  | nil s => rw [collect, collect, List.append_nil, List.nil_append]
  | @cons s t u e es hst _ ih =>
    have hfirst := (hstep s e t hst).append_right (M.collect come t es)
    have hrest := ih.append_left (go s e)
    rw [List.append_assoc, List.append_assoc] at hfirst
    rw [← List.append_assoc (go s e) (M.collect go t es)] at hrest
    rw [collect_cons hst, collect_cons hst]
    exact hfirst.trans hrest

/-! ## Simulation -/

/-- **The simulation rule**: when each step from a related pair is matched by a step of `N` on the
translated event (or by none, where the event translates to none), each run is matched by the translated one. -/
theorem Run.simulates {τ η ψ : Type*} {N : Machine τ η ψ} {R : σ → τ → Prop} {f : σ → ε → Option η}
    (hsim : ∀ s e t a, M.Step s e t → R s a →
      match f s e with
      | some x => ∃ b, N.Step a x b ∧ R t b
      | none => R t a)
    {s t : σ} {es : List ε} (h : M.Run s es t) :
    ∀ {a : τ}, R s a → ∃ b, N.Run a (M.collect (fun s e => (f s e).toList) s es) b ∧ R t b := by
  induction h with
  | nil s => exact fun {a} ha => ⟨a, .nil a, ha⟩
  | @cons s t u e es hst _ ih =>
    intro a ha
    have hmatch := hsim s e t a hst ha
    rw [collect_cons hst]
    cases hx : f s e with
    | none =>
      rw [hx] at hmatch
      exact ih hmatch
    | some x =>
      rw [hx] at hmatch
      obtain ⟨b, hb, htb⟩ := hmatch
      obtain ⟨c, hc, huc⟩ := ih htb
      exact ⟨c, .cons hb hc, huc⟩

/-! ## Leaving events out -/

/-- **Erasing**: when a step by an event that is kept is matched by the same event, and a step by any other is
matched by none, each run is matched by what is kept of it. -/
theorem Run.erase {τ ψ : Type*} {N : Machine τ ε ψ} {R : σ → τ → Prop} {keep : ε → Bool}
    (hkeep : ∀ s e t a, keep e = true → M.Step s e t → R s a → ∃ b, N.Step a e b ∧ R t b)
    (hdrop : ∀ s e t a, keep e = false → M.Step s e t → R s a → R t a)
    {s t : σ} {es : List ε} (h : M.Run s es t) : ∀ {a : τ}, R s a → ∃ b, N.Run a (es.filter keep) b ∧ R t b := by
  induction h with
  | nil s => exact fun {a} ha => ⟨a, .nil a, ha⟩
  | @cons s t u e es hst _ ih =>
    intro a ha
    cases hk : keep e with
    | true =>
      obtain ⟨b, hb, htb⟩ := hkeep s e t a hk hst ha
      obtain ⟨c, hc, huc⟩ := ih htb
      rw [List.filter_cons_of_pos hk]
      exact ⟨c, .cons hb hc, huc⟩
    | false =>
      obtain ⟨c, hc, huc⟩ := ih (hdrop s e t a hk hst ha)
      rw [List.filter_cons_of_neg (Bool.eq_false_iff.mp hk)]
      exact ⟨c, hc, huc⟩

/-- **Restoring**: when every other event can be taken in a related state, and leads to one, a run of what is kept
is matched by the whole. -/
theorem Run.restore {τ ψ : Type*} {N : Machine τ ε ψ} {R : σ → τ → Prop} {keep : ε → Bool} {es : List ε}
    (hkeep : ∀ s a e b, keep e = true → N.Step a e b → R s a → ∃ t, M.Step s e t ∧ R t b)
    (hdrop : ∀ s a e, e ∈ es → keep e = false → R s a → ∃ t, M.Step s e t ∧ R t a) :
    ∀ {s : σ} {a b : τ}, N.Run a (es.filter keep) b → R s a → ∃ t, M.Run s es t ∧ R t b := by
  induction es with
  | nil =>
    intro s a b h ha
    exact ⟨s, .nil s, run_nil.mp h ▸ ha⟩
  | cons e es ih =>
    intro s a b h ha
    have hdrop' : ∀ s a e', e' ∈ es → keep e' = false → R s a → ∃ t, M.Step s e' t ∧ R t a :=
      fun s a e' he' => hdrop s a e' (List.mem_cons_of_mem e he')
    cases hk : keep e with
    | true =>
      rw [List.filter_cons_of_pos hk] at h
      obtain ⟨c, hc, hrest⟩ := run_cons.mp h
      obtain ⟨u, hu, huc⟩ := hkeep s a e c hk hc ha
      obtain ⟨t, ht, htb⟩ := ih hdrop' hrest huc
      exact ⟨t, .cons hu ht, htb⟩
    | false =>
      rw [List.filter_cons_of_neg (Bool.eq_false_iff.mp hk)] at h
      obtain ⟨u, hu, hua⟩ := hdrop s a e List.mem_cons_self hk ha
      obtain ⟨t, ht, htb⟩ := ih hdrop' h hua
      exact ⟨t, .cons hu ht, htb⟩

/-! ## Reordering events -/

/-- Where `f` can be taken after `e`, `e` can be taken after `f`, and leads to the same state. -/
def Commutes (M : Machine σ ε φ) (e f : ε) : Prop :=
  ∀ s t u, M.Step s e t → M.Step t f u → ∃ t', M.Step s f t' ∧ M.Step t' e u

/-- Two sequences of events that differ in the order of two neighbours that may be exchanged. -/
inductive Swap (C : ε → ε → Prop) : List ε → List ε → Prop
  | mk (es fs : List ε) {e f : ε} : C e f → Swap C (es ++ e :: f :: fs) (es ++ f :: e :: fs)

/-- One sequence comes from the other by exchanges of neighbours. -/
def Reordered (C : ε → ε → Prop) : List ε → List ε → Prop := Relation.ReflTransGen (Swap C)

/-- **A run may be reordered by exchanges of events that commute**, and leads to the same state. -/
theorem Run.reordered {C : ε → ε → Prop} (hC : ∀ e f, C e f → M.Commutes e f) {es fs : List ε}
    (h : Reordered C es fs) {s t : σ} (hr : M.Run s es t) : M.Run s fs t := by
  induction h with
  | refl => exact hr
  | tail _ hswap ih =>
    cases hswap with
    | mk front back hef =>
      obtain ⟨u, hu, hrest⟩ := run_append.mp ih
      obtain ⟨v, hv, hrest⟩ := run_cons.mp hrest
      obtain ⟨x, hx, hback⟩ := run_cons.mp hrest
      obtain ⟨v', hv', hx'⟩ := hC _ _ hef u v x hv hx
      exact hu.append (.cons hv' (.cons hx' hback))

end Machine

end EndlessRunner.Lib
