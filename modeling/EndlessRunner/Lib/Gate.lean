import Mathlib.Algebra.Order.BigOperators.Group.List
import Mathlib.Algebra.Order.Field.Basic
import Mathlib.Tactic.Linarith

/-!
# A body that passes a gate in steps

A body moves back along a line by steps, and a gate of half-width `r` around the origin sees it only where a step
ends. `caught_of_le` and `exists_not_caught` are the two halves of one fact: no body gets from before the gate
to behind it unseen exactly when no step is longer than the gate is wide.
-/

set_option autoImplicit false

namespace EndlessRunner.Lib.Gate

variable {K : Type*} [Field K] [LinearOrder K]

/-- The place lies inside the gate. -/
def Inside (r x : K) : Prop := -r ≤ x ∧ x ≤ r

/-- A body that starts at `x` is inside the gate after one of the steps. -/
def Caught (r : K) : K → List K → Prop
  | _, [] => False
  | x, d :: ds => Inside r (x - d) ∨ Caught r (x - d) ds

theorem caught_append (r : K) (ds es : List K) (x : K) :
    Caught r x (ds ++ es) ↔ Caught r x ds ∨ Caught r (x - ds.sum) es := by
  induction ds generalizing x with
  | nil => simp [Caught]
  | cons d ds ih =>
    rw [List.cons_append, Caught, Caught, ih, List.sum_cons, sub_add_eq_sub_sub, or_assoc]

variable [IsStrictOrderedRing K]

/-- **Steps no longer than the gate is wide do not jump over it.** -/
theorem caught_of_le {r : K} (hr : 0 ≤ r) (ds : List K) : ∀ {x : K}, (∀ d ∈ ds, d ≤ r + r) → r < x →
    x - ds.sum < -r → Caught r x ds := by
  induction ds with
  | nil =>
    intro x _ hfront hbehind
    rw [List.sum_nil, sub_zero] at hbehind
    linarith
  | cons d ds ih =>
    intro x hle hfront hbehind
    obtain ⟨hd, hds⟩ := List.forall_mem_cons.mp hle
    rcases le_or_gt (x - d) r with hin | hout
    · left
      exact ⟨by linarith, hin⟩
    · right
      apply ih hds hout
      rw [List.sum_cons, sub_add_eq_sub_sub] at hbehind
      exact hbehind

/-- A body that ends its steps before the gate was before it all the time. -/
theorem not_caught_of_lt {r : K} (ds : List K) : ∀ {x : K}, (∀ d ∈ ds, 0 < d) → r < x - ds.sum →
    ¬ Caught r x ds := by
  induction ds with
  | nil => exact fun _ _ h => h
  | cons d ds ih =>
    intro x hpos hfront hcaught
    obtain ⟨_, hds⟩ := List.forall_mem_cons.mp hpos
    rw [List.sum_cons, sub_add_eq_sub_sub] at hfront
    rcases hcaught with hin | hlater
    · have hsum : 0 ≤ ds.sum := List.sum_nonneg fun e he => (hds e he).le
      have hle : x - d ≤ r := hin.2
      linarith
    · exact ih hds hfront hlater

/-- **A step longer than the gate is wide jumps over it**, from a suitable place, whatever came before. -/
theorem exists_not_caught {r d : K} {ds : List K} (hpos : ∀ e ∈ ds, 0 < e) (hd : r + r < d) :
    ∃ x, r < x ∧ x - (ds ++ [d]).sum < -r ∧ ¬ Caught r x (ds ++ [d]) := by
  have hsum : 0 ≤ ds.sum := List.sum_nonneg fun e he => (hpos e he).le
  refine ⟨d / 2 + ds.sum, by linarith, ?_, ?_⟩
  · rw [List.sum_append, List.sum_singleton]
    linarith
  · rw [caught_append]
    intro h
    rcases h with hearly | hlast
    · apply not_caught_of_lt ds hpos _ hearly
      linarith
    · rcases hlast with hin | hnone
      · have hge : -r ≤ d / 2 + ds.sum - ds.sum - d := hin.1
        linarith
      · exact hnone

end EndlessRunner.Lib.Gate
