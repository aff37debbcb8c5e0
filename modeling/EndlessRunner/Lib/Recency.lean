import Mathlib.Data.List.Dedup

/-!
# Entries in the order of their last use

A list without duplicates, whose entries go to its end when they are used, and the log of all uses. The list is the log
without the entries that come again later (`touch_dedup`). Where the front is always used first, in whatever order, the
list is what the log has from some point on, and which entries were used is a matter of how far that point has moved
(`mem_used_iff`).
-/

set_option autoImplicit false

namespace EndlessRunner.Lib.Recency

variable {α : Type*}

/-- The entry goes to the end, from wherever it was. -/
def touch [DecidableEq α] (a : α) (s : List α) : List α := s.filter (· ≠ a) ++ [a]

theorem touch_of_notMem [DecidableEq α] {a : α} {s : List α} (h : a ∉ s) : touch a s = s ++ [a] := by
  rw [touch, List.filter_eq_self.mpr]
  intro b hb
  exact decide_eq_true fun heq => h (heq ▸ hb)

/-- **A use keeps the order of last uses.** -/
theorem touch_dedup [DecidableEq α] (a : α) (log : List α) : touch a log.dedup = (log ++ [a]).dedup := by
  induction log with
  | nil => rfl
  | cons b log ih =>
    rw [List.cons_append]
    by_cases hlater : b ∈ log
    · rw [List.dedup_cons_of_mem hlater, List.dedup_cons_of_mem (List.mem_append_left _ hlater), ih]
    · rw [List.dedup_cons_of_notMem hlater, touch]
      by_cases hba : b = a
      · have hagain : b ∈ log ++ [a] := List.mem_append_right _ (List.mem_singleton.mpr hba)
        rw [List.filter_cons_of_neg (by simp [hba]), List.dedup_cons_of_mem hagain, ← ih, touch]
      · have hnever : b ∉ log ++ [a] := by simp [hlater, hba]
        rw [List.filter_cons_of_pos (by simp [hba]), List.dedup_cons_of_notMem hnever, ← ih, touch, List.cons_append]

/-- From a point on from which there are no duplicates, no entry comes again. -/
theorem notMem_drop_succ {log : List α} {m i : ℕ} {a : α} (h : (log.drop m).Nodup) (hm : m ≤ i)
    (hi : log[i]? = some a) : a ∉ log.drop (i + 1) := by
  intro hagain
  obtain ⟨j, hj⟩ := List.getElem?_of_mem hagain
  have hfirst : (log.drop m)[i - m]? = some a := by rw [List.getElem?_drop, Nat.add_sub_cancel' hm, hi]
  have hsecond : (log.drop m)[i + 1 + j - m]? = some a := by
    rw [List.getElem?_drop, Nat.add_sub_cancel' (by omega), ← List.getElem?_drop, hj]
  obtain ⟨hbound, _⟩ := List.getElem?_eq_some_iff.mp hfirst
  have heq := (List.getElem?_inj hbound h).mp (hfirst.trans hsecond.symm)
  omega

/-- When the front of the list was used, in whatever order, the list is still what the log has from some point on. -/
theorem drop_used {log p q used : List α} {m : ℕ} (hlist : log.drop m = p ++ q) (hused : used.Perm p)
    (hm : m ≤ log.length) : (log ++ used).drop (m + used.length) = q ++ used := by
  have hlength := congrArg List.length hlist
  rw [List.length_drop, List.length_append] at hlength
  rw [hused.length_eq, List.drop_append_of_le_length (by omega), ← List.drop_drop, hlist, List.drop_left]

/-- **An entry was used exactly when the list has moved on past it.** The list was the log from `m` on, and is the
longer log from `n` on. -/
theorem mem_used_iff {log used : List α} {m n i : ℕ} {a : α} (before : (log.drop m).Nodup)
    (after : ((log ++ used).drop n).Nodup) (hi : (log.drop m)[i]? = some a) (hmem : a ∈ (log ++ used).drop n) :
    a ∈ used ↔ m + i < n := by
  rw [List.getElem?_drop] at hi
  obtain ⟨hlt, _⟩ := List.getElem?_eq_some_iff.mp hi
  constructor
  · intro hused
    by_contra hle
    -- then the list has the entry in two places
    have hold : (log ++ used)[m + i]? = some a := by rw [List.getElem?_append_left hlt, hi]
    refine notMem_drop_succ after (Nat.not_lt.mp hle) hold ?_
    rw [List.drop_append_of_le_length hlt]
    exact List.mem_append_right _ hused
  · intro hpassed
    rw [List.drop_append] at hmem
    rcases List.mem_append.mp hmem with hlog | hused
    · have hlater : a ∈ (log.drop (m + i + 1)).drop (n - (m + i + 1)) := by
        rwa [List.drop_drop, Nat.add_sub_cancel' hpassed]
      exact absurd (List.mem_of_mem_drop hlater) (notMem_drop_succ before (Nat.le_add_right _ _) hi)
    · exact List.mem_of_mem_drop hused

end EndlessRunner.Lib.Recency
