import EndlessRunner.Lib.Board
import Mathlib.Data.List.Basic

/-!
# Rows that are used again

A few rows `ι` of places, which are laid again and again, and an endless board, which gets a row `ℕ` each time. The log
says which row was laid when. What was laid before is off the first board, and still on the second. As long as objects
are only struck and rows only laid, each row has what the endless board has in the row that was laid for it last
(`Carries`).
-/

set_option autoImplicit false

namespace EndlessRunner.Lib.Board

variable {ι κ : Type*}

/-- New objects for some places of a row. -/
def puts (i : ι) (ks : List κ) : List (Move ι κ) := ks.map (.put i)

variable [DecidableEq ι] [DecidableEq κ]

theorem puts_of_ne {i j : ι} (hj : j ≠ i) (ks : List κ) : ∀ (b : Board ι κ) (k : κ),
    (b.play (puts i ks)).stands j k = b.stands j k := by
  induction ks with
  | nil => exact fun _ _ => rfl
  | cons l ks ih =>
    intro b k
    refine (ih (b.move (.put i l)) k).trans ?_
    simp only [move, hj, false_and, if_false]

/-- Two rows that have the same, and get new objects for the same places, have the same. -/
theorem puts_same {i : ι} {n : ℕ} (ks : List κ) : ∀ {b : Board ι κ} {r : Board ℕ κ}, b.made = r.made →
    (∀ k, b.stands i k = r.stands n k) →
    (b.play (puts i ks)).made = (r.play (puts n ks)).made ∧
      ∀ k, (b.play (puts i ks)).stands i k = (r.play (puts n ks)).stands n k := by
  induction ks with
  | nil => exact fun hmade hrow => ⟨hmade, hrow⟩
  | cons l ks ih =>
    intro b r hmade hrow
    refine ih (b := b.move (.put i l)) (r := r.move (.put n l)) (congrArg (· + 1) hmade) ?_
    intro k
    simp only [move, true_and, hmade, hrow k]

/-- Each row has what the endless board has in the row that was laid for it last. -/
structure Carries (b : Board ι κ) (log : List ι) (r : Board ℕ κ) : Prop where
  made : b.made = r.made
  /-- No row is laid before its time. -/
  ahead : ∀ j k, log.length ≤ j → r.stands j k = none
  /-- Rows that were never laid are empty. -/
  blank : ∀ i k, i ∉ log → b.stands i k = none
  carries : ∀ j i k, log[j]? = some i → i ∉ log.drop (j + 1) → b.stands i k = r.stands j k

omit [DecidableEq κ] in
/-- At first the rows are laid in their order. -/
theorem carries_range {b : Board ℕ κ} {n : ℕ} (hblank : ∀ i k, n ≤ i → b.stands i k = none) :
    Carries b (List.range n) b where
  made := rfl
  ahead j k hj := by
    rw [List.length_range] at hj
    exact hblank j k hj
  blank i k hi := hblank i k (not_lt.mp fun hlt => hi (List.mem_range.mpr hlt))
  carries j i k hj _ := by
    obtain ⟨hlt, rfl⟩ := List.getElem?_eq_some_iff.mp hj
    rw [List.getElem_range]

/-- An object that is struck goes from both. -/
theorem Carries.strike {b : Board ι κ} {log : List ι} {r : Board ℕ κ} (h : Carries b log r) (o : ℕ) :
    Carries (b.move (.strike o)) log (r.move (.strike o)) where
  made := h.made
  ahead j k hj := by simp [move, h.ahead j k hj]
  blank i k hi := by simp [move, h.blank i k hi]
  carries j i k hj hlast := by simp only [move, h.carries j i k hj hlast]

/-- **A row that is laid**, once nothing stands on it, gets on both what it gets. -/
theorem Carries.lay {b c : Board ι κ} {log : List ι} {r : Board ℕ κ} {i : ι} (h : Carries b log r)
    (hmade : c.made = b.made) (hempty : ∀ k, c.stands i k = none)
    (hothers : ∀ j k, j ≠ i → c.stands j k = b.stands j k) (ks : List κ) :
    Carries (c.play (puts i ks)) (log ++ [i]) (r.play (puts log.length ks)) := by
  obtain ⟨hmade', hrow⟩ := puts_same (i := i) (n := log.length) ks (hmade.trans h.made)
    (fun k => (hempty k).trans (h.ahead _ k le_rfl).symm)
  refine ⟨hmade', ?_, ?_, ?_⟩
  · intro j k hj
    rw [List.length_append, List.length_singleton] at hj
    rw [puts_of_ne (Nat.lt_of_succ_le hj).ne', h.ahead j k (Nat.le_of_succ_le hj)]
  · intro j k hj
    rw [List.mem_append, List.mem_singleton, not_or] at hj
    rw [puts_of_ne hj.2, hothers j k hj.2, h.blank j k hj.1]
  · intro j s k hj hlast
    rcases Nat.lt_or_ge j log.length with hlt | hge
    · rw [List.getElem?_append_left hlt] at hj
      rw [List.drop_append_of_le_length hlt, List.mem_append, List.mem_singleton, not_or] at hlast
      rw [puts_of_ne hlast.2, puts_of_ne hlt.ne, hothers s k hlast.2, h.carries j s k hj hlast.1]
    · rw [List.getElem?_append_right hge] at hj
      obtain ⟨hone, rfl⟩ := List.getElem?_eq_some_iff.mp hj
      have hj' : j = log.length := Nat.le_antisymm (Nat.le_of_sub_eq_zero (Nat.lt_one_iff.mp hone)) hge
      subst hj'
      simpa using hrow k

/-- A row that is used again is emptied first. -/
theorem Carries.layAgain {b : Board ι κ} {log : List ι} {r : Board ℕ κ} (h : Carries b log r) (i : ι) (ks : List κ) :
    Carries (b.play (.clear i :: puts i ks)) (log ++ [i]) (r.play (puts log.length ks)) := by
  refine h.lay (c := b.move (.clear i)) rfl (fun k => if_pos rfl) ?_ ks
  intro j k hj
  simp only [move, if_neg hj]

/-- A new row has nothing to empty. -/
theorem Carries.layNew {b : Board ι κ} {log : List ι} {r : Board ℕ κ} {i : ι} (h : Carries b log r) (hnew : i ∉ log) :
    Carries b (log ++ [i]) r :=
  h.lay rfl (fun k => h.blank i k hnew) (fun _ _ _ => rfl) []

end EndlessRunner.Lib.Board
