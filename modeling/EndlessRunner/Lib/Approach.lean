import Mathlib.Algebra.Order.Field.Basic
import Mathlib.Algebra.Order.Group.Unbundled.Abs
import Mathlib.Order.Interval.Set.UnorderedInterval
import Mathlib.Tactic.Linarith
import Mathlib.Tactic.Ring

/-!
# Steps towards a target

A step covers a part `f` of the way to the target `y`. What is left of the way is multiplied by `1 - f`
(`toward_sub`): parts up to one stay on the way, and parts whose distance from one has a bound below one bring the
body as near as one likes.
-/

set_option autoImplicit false

namespace EndlessRunner.Lib.Approach

variable {K : Type*} [Field K]

/-- The place a part `f` of the way from `x` to `y`. -/
def toward (y f x : K) : K := x + (y - x) * f

/-- What is left of the way. -/
theorem toward_sub (y f x : K) : toward y f x - y = (1 - f) * (x - y) := by
  unfold toward
  ring

variable [LinearOrder K] [IsStrictOrderedRing K]

/-- **A step stays on the way exactly when it covers no more than the whole of it**, or when there is none. -/
theorem toward_mem_uIcc_iff {y f x : K} (hf : 0 ≤ f) : toward y f x ∈ Set.uIcc x y ↔ f ≤ 1 ∨ x = y := by
  rcases lt_trichotomy x y with hlt | rfl | hgt
  · have hway : 0 < y - x := sub_pos.mpr hlt
    rw [Set.uIcc_of_le hlt.le, Set.mem_Icc, toward]
    constructor
    · intro h
      left
      have hle : (y - x) * f ≤ (y - x) * 1 := by linarith [h.2]
      exact le_of_mul_le_mul_left hle hway
    · intro h
      have hone : f ≤ 1 := h.resolve_right hlt.ne
      have hle : (y - x) * f ≤ (y - x) * 1 := mul_le_mul_of_nonneg_left hone hway.le
      exact ⟨le_add_of_nonneg_right (mul_nonneg hway.le hf), by linarith⟩
  · simp [toward]
  · have hway : 0 < x - y := sub_pos.mpr hgt
    have hneg : (y - x) * f = -((x - y) * f) := by ring
    rw [Set.uIcc_of_ge hgt.le, Set.mem_Icc, toward, hneg]
    constructor
    · intro h
      left
      have hle : (x - y) * f ≤ (x - y) * 1 := by linarith [h.1]
      exact le_of_mul_le_mul_left hle hway
    · intro h
      have hone : f ≤ 1 := h.resolve_right hgt.ne'
      have hle : (x - y) * f ≤ (x - y) * 1 := mul_le_mul_of_nonneg_left hone hway.le
      have hnonneg : 0 ≤ (x - y) * f := mul_nonneg hway.le hf
      exact ⟨by linarith, by linarith⟩

/-- **A step whose part is at most `1 - a` away from the whole leaves at most `1 - a` of the way.** -/
theorem sq_toward_sub_le {y f a x : K} (h : |1 - f| ≤ 1 - a) :
    (toward y f x - y) ^ 2 ≤ (x - y) ^ 2 * (1 - a) ^ 2 := by
  obtain ⟨hlo, hhi⟩ := abs_le.mp h
  have hfactor : (1 - f) ^ 2 ≤ (1 - a) ^ 2 := sq_le_sq' hlo hhi
  calc (toward y f x - y) ^ 2 = (x - y) ^ 2 * (1 - f) ^ 2 := by
        rw [toward_sub]
        ring
    _ ≤ (x - y) ^ 2 * (1 - a) ^ 2 := mul_le_mul_of_nonneg_left hfactor (sq_nonneg _)

/-- The same with `n` more such steps to come. -/
theorem sq_toward_sub_mul_pow_le {y f a x : K} (h : |1 - f| ≤ 1 - a) (n : ℕ) :
    (toward y f x - y) ^ 2 * (1 - a) ^ (2 * n) ≤ (x - y) ^ 2 * (1 - a) ^ (2 * (n + 1)) := by
  have hrest : 0 ≤ (1 - a) ^ (2 * n) := by
    rw [pow_mul]
    exact pow_nonneg (sq_nonneg _) n
  calc (toward y f x - y) ^ 2 * (1 - a) ^ (2 * n) ≤ (x - y) ^ 2 * (1 - a) ^ 2 * (1 - a) ^ (2 * n) :=
        mul_le_mul_of_nonneg_right (sq_toward_sub_le h) hrest
    _ = (x - y) ^ 2 * (1 - a) ^ (2 * (n + 1)) := by ring

end EndlessRunner.Lib.Approach
