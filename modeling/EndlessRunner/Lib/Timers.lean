import Mathlib.Order.Basic
import Mathlib.Data.List.Basic
import Mathlib.Data.List.MinMax

/-!
# One-shot timers

A pending timer is the time it is due and what it does. Nothing here says what a timer does: the
machine that owns the queue removes a timer when it fires and runs its action.
-/

set_option autoImplicit false

namespace EndlessRunner.Lib

/-- A pending one-shot timer. -/
structure Timer (K α : Type*) where
  due : K
  action : α
deriving DecidableEq, Repr

namespace Timer

variable {K α : Type*} [LinearOrder K]

/-- No pending timer is due before `t`, so the clock may run up to `t`. -/
def Quiet (pending : List (Timer K α)) (t : K) : Prop := ∀ τ ∈ pending, t ≤ τ.due

theorem quiet_append {p q : List (Timer K α)} {t : K} : Quiet (p ++ q) t ↔ Quiet p t ∧ Quiet q t :=
  List.forall_mem_append

theorem Quiet.mono {p : List (Timer K α)} {s t : K} (h : Quiet p t) (hst : s ≤ t) : Quiet p s :=
  fun τ hτ => hst.trans (h τ hτ)

theorem Quiet.of_sublist {p q : List (Timer K α)} {t : K} (h : Quiet q t) (hpq : p.Sublist q) :
    Quiet p t :=
  fun τ hτ => h τ (hpq.subset hτ)

omit [LinearOrder K] in
/-- When another timer is taken out of the queue, a timer stays in it. -/
theorem mem_eraseIdx_of_ne {p : List (Timer K α)} {i : ℕ} {σ τ : Timer K α} (hσ : p[i]? = some σ) (hτ : τ ∈ p)
    (hne : σ ≠ τ) : τ ∈ p.eraseIdx i := by
  obtain ⟨j, hj⟩ := List.getElem?_of_mem hτ
  apply List.mem_eraseIdx_iff_getElem?.mpr
  refine ⟨j, ?_, hj⟩
  intro hji
  rw [hji, hσ, Option.some.injEq] at hj
  exact hne hj

/-- A queue that is not empty has a timer that fires first. -/
theorem exists_earliest : ∀ {p : List (Timer K α)}, p ≠ [] →
    ∃ (i : ℕ) (τ : Timer K α), p[i]? = some τ ∧ Quiet p τ.due
  | [], h => absurd rfl h
  | [τ], _ => ⟨0, τ, rfl, fun σ hσ => by rw [List.mem_singleton.mp hσ]⟩
  | τ :: σ :: rest, _ => by
    obtain ⟨i, ρ, hi, hρ⟩ := exists_earliest (p := σ :: rest) (List.cons_ne_nil _ _)
    rcases le_total τ.due ρ.due with hle | hle
    · exact ⟨0, τ, rfl, List.forall_mem_cons.mpr ⟨le_rfl, hρ.mono hle⟩⟩
    · exact ⟨i + 1, ρ, hi, List.forall_mem_cons.mpr ⟨hle, hρ⟩⟩

/-- A timer other than the one at index `i` can fire first, unless all the others are due after it. -/
theorem exists_other_first {p : List (Timer K α)} {i : ℕ} {τ : Timer K α} (hτ : p[i]? = some τ) :
    (∃ k ρ, p[k]? = some ρ ∧ k ≠ i ∧ Quiet p ρ.due) ∨
      (Quiet p τ.due ∧ ∀ k ρ, p[k]? = some ρ → k ≠ i → τ.due < ρ.due) := by
  have hne : p ≠ [] := List.ne_nil_of_mem (List.mem_of_getElem? hτ)
  obtain ⟨j, σ, hσ, hquiet⟩ := exists_earliest hne
  by_cases hji : j = i
  · subst hji
    cases hσ.symm.trans hτ
    by_cases hother : ∃ k ρ, p[k]? = some ρ ∧ k ≠ j ∧ ρ.due ≤ τ.due
    · obtain ⟨k, ρ, hρ, hk, hle⟩ := hother
      exact .inl ⟨k, ρ, hρ, hk, hquiet.mono hle⟩
    · refine .inr ⟨hquiet, fun k ρ hρ hk => ?_⟩
      by_contra hle
      exact hother ⟨k, ρ, hρ, hk, not_lt.mp hle⟩
  · exact .inl ⟨j, σ, hσ, hji, hquiet⟩

end Timer

end EndlessRunner.Lib
