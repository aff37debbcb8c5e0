import Mathlib.Data.List.Count
import Mathlib.Order.Nat
import Mathlib.Logic.Function.Basic

/-!
# Lists of weak references

Objects are made one after another, each at a place: a shelf and a slot on it. A shelf lists what was put
on it. Objects die without being taken off the list, and a collection turns the entries of dead objects to
null, so a list overstates what its shelf holds. `Sound` is what stays true all the same: an object that
lives is listed once, on the shelf of its place, and has the place to itself.
-/

set_option autoImplicit false

namespace EndlessRunner.Lib

/-- Shelves `ι` with slots `κ`, and the objects made so far. -/
structure Shelves (ι κ : Type*) where
  entries : ι → List (Option ℕ)
  place : ℕ → Option (ι × κ)
  dead : ℕ → Bool
  made : ℕ

namespace Shelves

variable {ι κ : Type*}

/-- An object that was made and has not died. -/
def Live (s : Shelves ι κ) (o : ℕ) : Prop := o < s.made ∧ s.dead o = false

/-- No live object has the place. -/
def Vacant (s : Shelves ι κ) (i : ι) (k : κ) : Prop := ∀ o, s.Live o → s.place o ≠ some (i, k)

/-- What the lists are good for, with the slots in use limited to those that meet `p`. -/
structure Sound (p : κ → Prop) (s : Shelves ι κ) : Prop where
  /-- An entry, stale or not, is on the shelf of its object. -/
  entry : ∀ i o, some o ∈ s.entries i → o < s.made ∧ ∃ k, s.place o = some (i, k)
  listed : ∀ o, s.Live o → ∃ i k, s.place o = some (i, k) ∧ p k ∧ (s.entries i).count (some o) = 1
  single : ∀ o o', s.Live o → s.Live o' → s.place o = s.place o' → o = o'

/-! ## What happens to the objects -/

/-- An object dies. -/
def kill (s : Shelves ι κ) (o : ℕ) : Shelves ι κ := { s with dead := Function.update s.dead o true }

/-- What a collection makes of an entry. -/
def collectEntry (s : Shelves ι κ) : Option ℕ → Option ℕ
  | some o => if s.dead o then none else some o
  | none => none

/-- A collection turns the entries of dead objects to null. -/
def collect (s : Shelves ι κ) : Shelves ι κ :=
  { s with entries := fun i => (s.entries i).map s.collectEntry }

section Update

variable [DecidableEq ι]

/-- A new object is put on slot `k` of shelf `i`. -/
def put (s : Shelves ι κ) (i : ι) (k : κ) : Shelves ι κ where
  entries := Function.update s.entries i (s.entries i ++ [some s.made])
  place := Function.update s.place s.made (some (i, k))
  dead := Function.update s.dead s.made false
  made := s.made + 1

/-- The objects listed on shelf `i` die and are taken off; null entries stay. -/
def clear (s : Shelves ι κ) (i : ι) : Shelves ι κ :=
  { s with
    entries := Function.update s.entries i ((s.entries i).filter (·.isNone))
    dead := fun o => s.dead o || decide (some o ∈ s.entries i) }

end Update

variable {p : κ → Prop} {s : Shelves ι κ}

/-- A live object is listed on one shelf, once. -/
theorem Sound.count_eq [DecidableEq ι] (h : Sound p s) {o : ℕ} (ho : s.Live o) :
    ∃ i k, s.place o = some (i, k) ∧ p k ∧ ∀ j, (s.entries j).count (some o) = if j = i then 1 else 0 := by
  obtain ⟨i, k, hplace, hk, hcount⟩ := h.listed o ho
  refine ⟨i, k, hplace, hk, fun j => ?_⟩
  split_ifs with hj
  · rw [hj, hcount]
  · refine List.count_eq_zero.mpr fun hmem => ?_
    obtain ⟨_, k', hplace'⟩ := h.entry j o hmem
    rw [hplace] at hplace'
    cases hplace'
    exact hj rfl

/-- A shelf that lists nothing is vacant. -/
theorem Sound.vacant_of_nil (h : Sound p s) {i : ι} (hnil : s.entries i = []) (k : κ) : s.Vacant i k := by
  intro o ho hplace
  obtain ⟨j, k', hplace', _, hcount⟩ := h.listed o ho
  cases hplace'.symm.trans hplace
  rw [hnil] at hcount
  exact absurd hcount Nat.zero_ne_one

/-- Shelves without objects and entries are sound. -/
theorem Sound.of_empty (hmade : s.made = 0) (hentries : ∀ i, s.entries i = []) : Sound p s where
  entry i o ho := by
    rw [hentries i] at ho
    exact absurd ho List.not_mem_nil
  listed o ho := by
    have hlt := ho.1
    rw [hmade] at hlt
    exact absurd hlt (Nat.not_lt_zero o)
  single o _ ho := by
    have hlt := ho.1
    rw [hmade] at hlt
    exact absurd hlt (Nat.not_lt_zero o)

/-! ## Deaths -/

theorem live_kill {o o' : ℕ} : (s.kill o).Live o' ↔ s.Live o' ∧ o' ≠ o := by
  by_cases h : o' = o
  · subst h
    simp [Live, kill]
  · simp [Live, kill, h]

theorem Sound.kill (h : Sound p s) (o : ℕ) : Sound p (s.kill o) where
  entry := h.entry
  listed o' ho' := h.listed o' (live_kill.mp ho').1
  single o₁ o₂ h₁ h₂ := h.single o₁ o₂ (live_kill.mp h₁).1 (live_kill.mp h₂).1

/-! ## Collection -/

theorem collectEntry_eq_some {e : Option ℕ} {o : ℕ} :
    s.collectEntry e = some o ↔ e = some o ∧ s.dead o = false := by
  cases e with
  | none => simp [collectEntry]
  | some o' =>
    cases hd : s.dead o' with
    | true =>
      simp only [collectEntry, hd, if_true, reduceCtorEq, Option.some.injEq, false_iff]
      rintro ⟨rfl, halive⟩
      exact Bool.false_ne_true (halive.symm.trans hd)
    | false =>
      simp only [collectEntry, hd, Bool.false_eq_true, if_false, Option.some.injEq]
      refine ⟨fun heq => ⟨heq, heq ▸ hd⟩, And.left⟩

/-- A collection leaves the entries of what lives. -/
theorem count_collect {o : ℕ} (ho : s.Live o) (i : ι) :
    (s.collect.entries i).count (some o) = (s.entries i).count (some o) := by
  show ((s.entries i).map s.collectEntry).count (some o) = _
  rw [List.count_eq_countP, List.countP_map, List.count_eq_countP]
  refine List.countP_congr fun e _ => ?_
  simp only [Function.comp_apply, beq_iff_eq, collectEntry_eq_some, ho.2, and_true]

theorem Sound.collect (h : Sound p s) : Sound p s.collect where
  entry i o ho := by
    obtain ⟨e, he, heq⟩ := List.mem_map.mp ho
    obtain ⟨rfl, _⟩ := collectEntry_eq_some.mp heq
    exact h.entry i o he
  listed o ho := by
    have hlive : s.Live o := ho
    obtain ⟨i, k, hplace, hk, hcount⟩ := h.listed o hlive
    exact ⟨i, k, hplace, hk, (count_collect hlive i).trans hcount⟩
  single := h.single

/-! ## New objects -/

section Update

variable [DecidableEq ι]

theorem live_put {i : ι} {k : κ} {o : ℕ} : (s.put i k).Live o ↔ s.Live o ∨ o = s.made := by
  by_cases h : o = s.made
  · subst h
    simp [Live, put]
  · have hlt : o < s.made + 1 ↔ o < s.made := by omega
    simp [Live, put, h, hlt]

theorem place_put_made (s : Shelves ι κ) (i : ι) (k : κ) : (s.put i k).place s.made = some (i, k) :=
  Function.update_self ..

theorem place_put_of_live {i : ι} {k : κ} {o : ℕ} (ho : s.Live o) : (s.put i k).place o = s.place o :=
  Function.update_of_ne ho.1.ne _ _

theorem entries_put (s : Shelves ι κ) (i j : ι) (k : κ) :
    (s.put i k).entries j = s.entries j ++ if j = i then [some s.made] else [] := by
  by_cases h : j = i
  · subst h
    rw [if_pos rfl]
    exact Function.update_self ..
  · rw [if_neg h, List.append_nil]
    exact Function.update_of_ne h ..

/-- A new object leaves the other places vacant. -/
theorem Vacant.put {i i' : ι} {k k' : κ} (h : s.Vacant i k) (hne : (i', k') ≠ (i, k)) :
    (s.put i' k').Vacant i k := by
  intro o ho
  rcases live_put.mp ho with hlive | rfl
  · rw [place_put_of_live hlive]
    exact h o hlive
  · rw [place_put_made]
    exact fun heq => hne (Option.some.inj heq)

/-- **A new object goes to a vacant place.** -/
theorem Sound.put (h : Sound p s) {i : ι} {k : κ} (hk : p k) (hv : s.Vacant i k) : Sound p (s.put i k) where
  entry j o ho := by
    rw [entries_put] at ho
    rcases List.mem_append.mp ho with hold | hnew
    · obtain ⟨hlt, k', hplace⟩ := h.entry j o hold
      exact ⟨hlt.trans (Nat.lt_succ_self _), k', (Function.update_of_ne hlt.ne ..).trans hplace⟩
    · split_ifs at hnew with hj
      · rw [List.mem_singleton, Option.some.injEq] at hnew
        rw [hnew, hj]
        exact ⟨Nat.lt_succ_self _, k, place_put_made s i k⟩
      · exact absurd hnew List.not_mem_nil
  listed o ho := by
    rcases live_put.mp ho with hlive | rfl
    · obtain ⟨j, k', hplace, hk', hcount⟩ := h.listed o hlive
      refine ⟨j, k', (place_put_of_live hlive).trans hplace, hk', ?_⟩
      rw [entries_put, List.count_append, hcount, Nat.add_eq_left, List.count_eq_zero]
      split_ifs
      · simpa using hlive.1.ne
      · exact List.not_mem_nil
    · refine ⟨i, k, place_put_made s i k, hk, ?_⟩
      have hnone : (s.entries i).count (some s.made) = 0 :=
        List.count_eq_zero.mpr fun hmem => Nat.lt_irrefl _ (h.entry i _ hmem).1
      rw [entries_put, List.count_append, hnone, if_pos rfl, List.count_singleton_self]
  single o o' ho ho' hplace := by
    rcases live_put.mp ho with hlive | rfl <;> rcases live_put.mp ho' with hlive' | rfl
    · rw [place_put_of_live hlive, place_put_of_live hlive'] at hplace
      exact h.single o o' hlive hlive' hplace
    · rw [place_put_of_live hlive, place_put_made] at hplace
      exact absurd hplace (hv o hlive)
    · rw [place_put_of_live hlive', place_put_made] at hplace
      exact absurd hplace.symm (hv o' hlive')
    · rfl

/-! ## Clearing a shelf -/

theorem live_clear {i : ι} {o : ℕ} : (s.clear i).Live o ↔ s.Live o ∧ some o ∉ s.entries i := by
  simp [Live, clear, and_assoc]

/-- **A shelf that was cleared is vacant**, whatever stale entries it had. -/
theorem Sound.vacant_clear (h : Sound p s) (i : ι) (k : κ) : (s.clear i).Vacant i k := by
  intro o ho hplace
  obtain ⟨hlive, hnot⟩ := live_clear.mp ho
  obtain ⟨j, k', hplace', _, hcount⟩ := h.listed o hlive
  have hj : some (j, k') = some (i, k) := hplace'.symm.trans hplace
  cases hj
  exact hnot (List.count_pos_iff.mp (hcount ▸ Nat.one_pos))

theorem Sound.clear (h : Sound p s) (i : ι) : Sound p (s.clear i) where
  entry j o ho := by
    by_cases hj : j = i
    · subst hj
      have hfilter : some o ∈ (s.entries j).filter (·.isNone) := by
        simpa only [Shelves.clear, Function.update_self] using ho
      exact absurd (List.mem_filter.mp hfilter).2 Bool.false_ne_true
    · have hold : some o ∈ s.entries j := by
        simpa only [Shelves.clear, Function.update_of_ne hj] using ho
      exact h.entry j o hold
  listed o ho := by
    obtain ⟨hlive, hnot⟩ := live_clear.mp ho
    obtain ⟨j, k, hplace, hk, hcount⟩ := h.listed o hlive
    refine ⟨j, k, hplace, hk, ?_⟩
    have hj : j ≠ i := by
      rintro rfl
      exact hnot (List.count_pos_iff.mp (hcount ▸ Nat.one_pos))
    simpa only [Shelves.clear, Function.update_of_ne hj] using hcount
  single o o' ho ho' := h.single o o' (live_clear.mp ho).1 (live_clear.mp ho').1

end Update

end Shelves

end EndlessRunner.Lib
