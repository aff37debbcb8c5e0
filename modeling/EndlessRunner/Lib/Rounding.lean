import Mathlib.Algebra.Group.Int.Even
import Mathlib.Algebra.Order.Floor.Ring
import Mathlib.Data.Int.Log
import Mathlib.Logic.Function.Iterate
import Mathlib.Tactic.Linarith
import Mathlib.Tactic.Ring

/-!
# Binary floating point

The sum of two floats is the exact sum, rounded to so many binary places behind the leading one. `round p` rounds to the
nearest such number, and to the even one of two that are as near; exponents are unbounded. A rounding is monotone and
leaves alone what it yields (`IsRounding`), so a float that grows by what is not negative never falls. Within one power
of two it grows by the same each time (`grown_round`).
-/

set_option autoImplicit false

namespace EndlessRunner.Lib.Rounding

variable {K : Type*} [Field K] [LinearOrder K]

/-- Monotone, and exact on what it yields. -/
structure IsRounding (r : K → K) : Prop where
  mono : Monotone r
  idem : ∀ x, r (r x) = r x

/-- A stored number, after it was increased `n` times. -/
def grown (r : K → K) (s i : K) (n : ℕ) : K := (fun x => r (x + i))^[n] s

omit [LinearOrder K] in
theorem grown_zero (r : K → K) (s i : K) : grown r s i 0 = s := rfl

omit [LinearOrder K] in
theorem grown_succ (r : K → K) (s i : K) (n : ℕ) : grown r s i (n + 1) = r (grown r s i n + i) :=
  Function.iterate_succ_apply' ..

omit [LinearOrder K] in
theorem grown_add (r : K → K) (s i : K) (m n : ℕ) : grown r s i (m + n) = grown r (grown r s i m) i n := by
  rw [add_comm]
  exact Function.iterate_add_apply ..

omit [LinearOrder K] in
theorem grown_id (s i : K) (n : ℕ) : grown id s i n = s + n * i := by
  induction n with
  | zero => simp [grown_zero]
  | succ n ih =>
    rw [grown_succ, ih, id, Nat.cast_succ]
    ring

section IsRounding

variable {r : K → K} {s i : K}

theorem IsRounding.grown_stored (h : IsRounding r) (hs : r s = s) (n : ℕ) : r (grown r s i n) = grown r s i n := by
  cases n with
  | zero => exact hs
  | succ n =>
    rw [grown_succ]
    exact h.idem _

variable [IsStrictOrderedRing K]

/-- **What is increased does not fall.** -/
theorem IsRounding.grown_mono (h : IsRounding r) (hs : r s = s) (hi : 0 ≤ i) : Monotone (grown r s i) := by
  refine monotone_nat_of_le_succ fun n => ?_
  rw [grown_succ]
  calc grown r s i n = r (grown r s i n) := (h.grown_stored hs n).symm
    _ ≤ r (grown r s i n + i) := h.mono (le_add_of_nonneg_right hi)

end IsRounding

/-! ## The nearest integer -/

/-- The integer is as near as any, and is even if another is as near. -/
structure Near (x : K) (n : ℤ) : Prop where
  below : n - 1 / 2 < x ∨ n - 1 / 2 = x ∧ Even n
  above : x < n + 1 / 2 ∨ x = n + 1 / 2 ∧ Even n

variable [IsStrictOrderedRing K]

/-- **A smaller number is near a smaller integer.** -/
theorem Near.le {x y : K} {m n : ℤ} (hx : Near x m) (hy : Near y n) (h : x ≤ y) : m ≤ n := by
  by_contra hlt
  have hmn : (n : K) + 1 ≤ m := by exact_mod_cast Int.add_one_le_of_lt (not_le.mp hlt)
  rcases hx.below with hbelow | ⟨hbelow, hm⟩
  · rcases hy.above with habove | ⟨habove, _⟩ <;> linarith
  · rcases hy.above with habove | ⟨habove, hn⟩
    · linarith
    · -- both are half-way between two neighbours, and one of these is odd
      have hnext : m = n + 1 := by
        have hcast : (m : K) = n + 1 := by linarith
        exact_mod_cast hcast
      rw [hnext] at hm
      exact Int.even_add_one.mp hm hn

theorem Near.unique {x : K} {m n : ℤ} (h : Near x m) (h' : Near x n) : m = n :=
  le_antisymm (h.le h' le_rfl) (h'.le h le_rfl)

theorem Near.neg {x : K} {n : ℤ} (h : Near x n) : Near (-x) (-n) where
  below := by
    push_cast
    rcases h.above with habove | ⟨habove, hn⟩
    · exact .inl (by linarith)
    · exact .inr ⟨by linarith, hn.neg⟩
  above := by
    push_cast
    rcases h.below with hbelow | ⟨hbelow, hn⟩
    · exact .inl (by linarith)
    · exact .inr ⟨by linarith, hn.neg⟩

theorem near_of_abs_lt {x : K} {n : ℤ} (h : |x - n| < 1 / 2) : Near x n := by
  rw [abs_lt] at h
  exact ⟨.inl (by linarith), .inl (by linarith)⟩

theorem near_intCast (n : ℤ) : Near (n : K) n := near_of_abs_lt (by simp)

variable [FloorRing K]

/-- The nearest integer, and the even one of two. -/
def nearest (x : K) : ℤ :=
  if x - ⌊x⌋ < 1 / 2 ∨ x - ⌊x⌋ = 1 / 2 ∧ Even ⌊x⌋ then ⌊x⌋ else ⌊x⌋ + 1

theorem near_nearest (x : K) : Near x (nearest x) := by
  have hlo := Int.floor_le x
  have hhi := Int.lt_floor_add_one x
  unfold nearest
  split_ifs with hdown
  · refine ⟨.inl (by linarith), ?_⟩
    rcases hdown with hlt | ⟨heq, heven⟩
    · exact .inl (by linarith)
    · exact .inr ⟨by linarith, heven⟩
  · obtain ⟨hge, hodd⟩ := not_or.mp hdown
    rw [not_lt] at hge
    refine ⟨?_, .inl (by push_cast; linarith)⟩
    rcases hge.lt_or_eq with hgt | heq
    · exact .inl (by push_cast; linarith)
    · exact .inr ⟨by push_cast; linarith, Int.even_add_one.mpr fun heven => hodd ⟨heq.symm, heven⟩⟩

/-! ## Rounding to a number of places -/

/-- The last of `p` binary places behind the leading one. -/
def ulp (p : ℕ) (x : K) : K := 2 ^ (Int.log 2 |x| - p)

/-- The nearest number with `p` binary places behind the leading one, and the even one of two. -/
def round (p : ℕ) (x : K) : K := nearest (x / ulp p x) * ulp p x

variable {p : ℕ} {x y : K} {e : ℤ}

theorem ulp_of_mem (hlo : (2 : K) ^ e ≤ x) (hhi : x < 2 ^ (e + 1)) : ulp p x = 2 ^ (e - p) := by
  have hx : 0 < x := lt_of_lt_of_le (zpow_pos two_pos e) hlo
  have hge := (Int.zpow_le_iff_le_log Nat.one_lt_two hx).mp (by exact_mod_cast hlo)
  have hlt := (Int.lt_zpow_iff_log_lt Nat.one_lt_two hx).mp (by exact_mod_cast hhi)
  rw [ulp, abs_of_pos hx, le_antisymm (Int.lt_add_one_iff.mp hlt) hge]

/-- **Within one power of two** a number is rounded to the integer multiple of the last place that it is near to. -/
theorem round_eq {m : ℤ} (hlo : (2 : K) ^ e ≤ x) (hhi : x < 2 ^ (e + 1)) (hm : Near (x / 2 ^ (e - p)) m) :
    round p x = m * 2 ^ (e - p) := by
  rw [round, ulp_of_mem hlo hhi, (near_nearest _).unique hm]

theorem round_zero : round p (0 : K) = 0 := by
  have hzero : Near (0 : K) 0 := by exact_mod_cast near_intCast (K := K) 0
  rw [round, zero_div, (near_nearest 0).unique hzero, Int.cast_zero, zero_mul]

theorem round_neg (x : K) : round p (-x) = -round p x := by
  have hulp : ulp p (-x) = ulp p x := by rw [ulp, ulp, abs_neg]
  rw [round, hulp, neg_div, (near_nearest _).unique (near_nearest (x / ulp p x)).neg, round, Int.cast_neg, neg_mul]

theorem exists_zpow_le (hx : 0 < x) : ∃ e : ℤ, (2 : K) ^ e ≤ x ∧ x < 2 ^ (e + 1) :=
  ⟨Int.log 2 x, by exact_mod_cast Int.zpow_log_le_self Nat.one_lt_two hx,
    by exact_mod_cast Int.lt_zpow_succ_log_self Nat.one_lt_two x⟩

omit [FloorRing K] in
theorem zpow_eq_mul (p : ℕ) (e : ℤ) : (2 : K) ^ e = ((2 ^ p : ℤ) : K) * 2 ^ (e - p) := by
  push_cast
  rw [← zpow_natCast, ← zpow_add₀ two_ne_zero, add_sub_cancel]

/-- What is rounded stays between the same powers of two. -/
theorem round_mem (hlo : (2 : K) ^ e ≤ x) (hhi : x < 2 ^ (e + 1)) :
    ∃ m : ℤ, Near (x / 2 ^ (e - p)) m ∧ round p x = m * 2 ^ (e - p) ∧ 2 ^ p ≤ m ∧ m ≤ 2 ^ (p + 1) := by
  have hpos : (0 : K) < 2 ^ (e - p) := zpow_pos two_pos _
  have hnear := near_nearest (x / 2 ^ (e - p : ℤ))
  refine ⟨_, hnear, round_eq hlo hhi hnear, ?_, ?_⟩
  · refine (near_intCast (K := K) (2 ^ p)).le hnear ?_
    rwa [le_div_iff₀ hpos, ← zpow_eq_mul]
  · refine hnear.le (near_intCast (K := K) (2 ^ (p + 1))) ?_
    rw [div_le_iff₀ hpos]
    have hnext := zpow_eq_mul (K := K) (p + 1) (e + 1)
    rw [Nat.cast_succ, add_sub_add_right_eq_sub] at hnext
    exact hhi.le.trans_eq hnext

theorem le_round (hlo : (2 : K) ^ e ≤ x) (hhi : x < 2 ^ (e + 1)) : 2 ^ e ≤ round p x ∧ round p x ≤ 2 ^ (e + 1) := by
  obtain ⟨m, _, hm, hge, hle⟩ := round_mem (p := p) hlo hhi
  have hpos : (0 : K) ≤ 2 ^ (e - p) := (zpow_pos two_pos _).le
  have hnext := zpow_eq_mul (K := K) (p + 1) (e + 1)
  rw [Nat.cast_succ, add_sub_add_right_eq_sub] at hnext
  rw [hm, hnext, zpow_eq_mul p e]
  exact ⟨mul_le_mul_of_nonneg_right (by exact_mod_cast hge) hpos,
    mul_le_mul_of_nonneg_right (by exact_mod_cast hle) hpos⟩

theorem round_nonneg (hx : 0 ≤ x) : 0 ≤ round p x := by
  rcases hx.eq_or_lt with rfl | hpos
  · exact round_zero.ge
  · obtain ⟨e, hlo, hhi⟩ := exists_zpow_le hpos
    exact (zpow_pos two_pos e).le.trans (le_round hlo hhi).1

theorem round_le_round_of_pos (hx : 0 < x) (h : x ≤ y) : round p x ≤ round p y := by
  obtain ⟨e, hlo, hhi⟩ := exists_zpow_le hx
  obtain ⟨f, hlo', hhi'⟩ := exists_zpow_le (hx.trans_le h)
  have hef : e ≤ f := Int.lt_add_one_iff.mp
    ((zpow_lt_zpow_iff_right₀ one_lt_two).mp ((hlo.trans h).trans_lt hhi'))
  rcases hef.eq_or_lt with rfl | hlt
  · obtain ⟨m, hm, heq, _⟩ := round_mem (p := p) hlo hhi
    obtain ⟨n, hn, heq', _⟩ := round_mem (p := p) hlo' hhi'
    have hpos : (0 : K) < 2 ^ (e - p) := zpow_pos two_pos _
    rw [heq, heq']
    refine mul_le_mul_of_nonneg_right ?_ hpos.le
    exact_mod_cast hm.le hn (div_le_div_of_nonneg_right h hpos.le)
  · calc round p x ≤ 2 ^ (e + 1) := (le_round hlo hhi).2
      _ ≤ 2 ^ f := zpow_le_zpow_right₀ one_le_two hlt
      _ ≤ round p y := (le_round hlo' hhi').1

theorem round_mono : Monotone (round p : K → K) := by
  intro x y h
  rcases lt_trichotomy x 0 with hx | rfl | hx
  · rcases lt_or_ge y 0 with hy | hy
    · have hneg := round_le_round_of_pos (p := p) (neg_pos.mpr hy) (neg_le_neg h)
      rw [round_neg, round_neg] at hneg
      exact neg_le_neg_iff.mp hneg
    · have hneg := round_nonneg (p := p) (neg_pos.mpr hx).le
      rw [round_neg] at hneg
      exact (neg_nonneg.mp hneg).trans (round_nonneg hy)
  · rw [round_zero]
    exact round_nonneg h
  · exact round_le_round_of_pos hx h

theorem round_round_of_pos (hx : 0 < x) : round p (round p x) = round p x := by
  obtain ⟨e, hlo, hhi⟩ := exists_zpow_le hx
  obtain ⟨m, _, hm, hge, hle⟩ := round_mem (p := p) hlo hhi
  have hpos : (0 : K) < 2 ^ (e - p) := zpow_pos two_pos _
  have hnext := zpow_eq_mul (K := K) (p + 1) (e + 1)
  rw [Nat.cast_succ, add_sub_add_right_eq_sub] at hnext
  rcases hle.lt_or_eq with hlt | heq
  · have hlow : (2 : K) ^ e ≤ m * 2 ^ (e - p) := by
      rw [zpow_eq_mul p e]
      exact mul_le_mul_of_nonneg_right (by exact_mod_cast hge) hpos.le
    have hhigh : (m * 2 ^ (e - p) : K) < 2 ^ (e + 1) := by
      rw [hnext]
      exact mul_lt_mul_of_pos_right (by exact_mod_cast hlt) hpos
    rw [hm, round_eq hlow hhigh]
    rw [mul_div_cancel_right₀ _ hpos.ne']
    exact near_intCast m
  · -- the next power of two is exact
    rw [hm, heq, ← hnext]
    have hup : (2 : K) ^ (e + 1) < 2 ^ (e + 1 + 1) := zpow_lt_zpow_right₀ one_lt_two (lt_add_one _)
    rw [round_eq (m := 2 ^ p) le_rfl hup, ← zpow_eq_mul]
    rw [zpow_eq_mul p (e + 1), mul_div_cancel_right₀ _ (zpow_pos two_pos _).ne']
    exact near_intCast _

/-- **It is a rounding.** -/
theorem isRounding_round (p : ℕ) : IsRounding (round p : K → K) where
  mono := round_mono
  idem x := by
    rcases lt_trichotomy x 0 with hx | rfl | hx
    · have hneg := round_round_of_pos (p := p) (neg_pos.mpr hx)
      rwa [round_neg, round_neg, neg_inj] at hneg
    · rw [round_zero, round_zero]
    · exact round_round_of_pos hx

/-! ## Growth within a power of two -/

/-- **Within one power of two each increase adds as many last places**, where `c` is the nearest number of these. -/
theorem grown_round {a c : ℤ} {i : K} (hc : |i / 2 ^ (e - p) - (c : K)| < 1 / 2) (hnonneg : 0 ≤ c)
    (hlo : (2 : K) ^ e ≤ (a : K) * 2 ^ (e - p) + i) {n : ℕ} :
    ((a + (n - 1) * c : ℤ) : K) * 2 ^ (e - p) + i < 2 ^ (e + 1) →
      grown (round p) ((a : K) * 2 ^ (e - p)) i n = ((a + n * c : ℤ) : K) * 2 ^ (e - p) := by
  have hpos : (0 : K) < 2 ^ (e - p) := zpow_pos two_pos _
  have hc' : (0 : K) ≤ c := by exact_mod_cast hnonneg
  induction n with
  | zero =>
    intro _
    rw [grown_zero, Nat.cast_zero, zero_mul, add_zero]
  | succ n ih =>
    intro hhi
    have hsum : ((a + ((n + 1 : ℕ) - 1) * c : ℤ) : K) = a + n * c := by
      push_cast
      ring
    rw [hsum] at hhi
    have hgrown : (0 : K) ≤ n * c * 2 ^ (e - p) := by positivity
    rw [grown_succ, ih, round_eq (e := e) (m := a + n * c + c)]
    · push_cast
      ring
    · push_cast
      linarith
    · push_cast
      exact hhi
    · apply near_of_abs_lt
      push_cast
      rwa [add_div, mul_div_cancel_right₀ _ hpos.ne', add_sub_add_left_eq_sub]
    · push_cast
      have hlast : (0 : K) ≤ c * 2 ^ (e - p) := by positivity
      linarith

/-- From one power of two to the next: `n` times the same, and the step over it. -/
theorem grown_over {i : K} {p : ℕ} {e f a c m : ℤ} {n : ℕ} (hf : f = e + 1) (hc : |i / 2 ^ (e - p) - (c : K)| < 1 / 2)
    (hnonneg : 0 ≤ c) (hlo : (2 : K) ^ e ≤ (a : K) * 2 ^ (e - p) + i)
    (hhi : ((a + (n - 1) * c : ℤ) : K) * 2 ^ (e - p) + i < 2 ^ f)
    (hlo' : (2 : K) ^ f ≤ ((a + n * c : ℤ) : K) * 2 ^ (e - p) + i)
    (hhi' : ((a + n * c : ℤ) : K) * 2 ^ (e - p) + i < 2 ^ (f + 1))
    (hm : |(((a + n * c : ℤ) : K) * 2 ^ (e - p) + i) / 2 ^ (f - p) - (m : K)| < 1 / 2) :
    grown (round p) ((a : K) * 2 ^ (e - p)) i (n + 1) = (m : K) * 2 ^ (f - p) := by
  subst hf
  rw [grown_succ, grown_round hc hnonneg hlo hhi, round_eq hlo' hhi' (near_of_abs_lt hm)]

end EndlessRunner.Lib.Rounding
