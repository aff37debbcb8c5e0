import EndlessRunner.Lib.Shelves
import Mathlib.Data.Finset.Card
import Mathlib.Data.Finset.Option

/-!
# What stands where

The abstract account of `Shelves`: a board with at most one object on each place, and three moves. A board has no
stale entries, so what stands on a place is what was put there last and was not struck since (`Board.stands_play`).
The shelves refine it, move by move (`Shelves.Shows`).
-/

set_option autoImplicit false

namespace EndlessRunner.Lib

/-- Places `ι × κ`, what stands on them, and how many objects were made so far. -/
structure Board (ι κ : Type*) where
  stands : ι → κ → Option ℕ
  made : ℕ

namespace Board

variable {ι κ : Type*}

/-- What is done to a board. -/
inductive Move (ι κ : Type*)
  /-- A new object is put on a place. -/
  | put (i : ι) (k : κ)
  /-- The places of `i` are emptied. -/
  | clear (i : ι)
  /-- An object goes, wherever it stands. -/
  | strike (o : ℕ)

def empty : Board ι κ := ⟨fun _ _ => none, 0⟩

variable [DecidableEq ι] [DecidableEq κ]

def move (b : Board ι κ) : Move ι κ → Board ι κ
  | .put i k => ⟨fun j l => if j = i ∧ l = k then some b.made else b.stands j l, b.made + 1⟩
  | .clear i => { b with stands := fun j l => if j = i then none else b.stands j l }
  | .strike o => { b with stands := fun j l => if b.stands j l = some o then none else b.stands j l }

/-- A sequence of moves, one after the other. -/
def play (b : Board ι κ) (ms : List (Move ι κ)) : Board ι κ := ms.foldl move b

theorem play_append (b : Board ι κ) (ms ns : List (Move ι κ)) : b.play (ms ++ ns) = (b.play ms).play ns :=
  List.foldl_append ..

/-! ## History -/

/-- The move puts something on the place, or empties it. -/
def Move.Renews (i : ι) (k : κ) : Move ι κ → Prop
  | .put j l => j = i ∧ l = k
  | .clear j => j = i
  | .strike _ => False

/-- **A place that is not renewed keeps what stands there, until it is struck.** -/
theorem stands_play {i : ι} {k : κ} (ms : List (Move ι κ)) : ∀ {b : Board ι κ}, (∀ m ∈ ms, ¬ m.Renews i k) → ∀ o,
    (b.play ms).stands i k = some o ↔ b.stands i k = some o ∧ Move.strike o ∉ ms := by
  induction ms with
  | nil =>
    intro b _ o
    exact ⟨fun h => ⟨h, List.not_mem_nil⟩, And.left⟩
  | cons m ms ih =>
    intro b hrenews o
    obtain ⟨hm, hms⟩ := List.forall_mem_cons.mp hrenews
    have hone : (b.move m).stands i k = some o ↔ b.stands i k = some o ∧ m ≠ .strike o := by
      cases m with
      | put j l =>
        have hne : ¬ (i = j ∧ k = l) := fun h => hm ⟨h.1.symm, h.2.symm⟩
        simp only [move, if_neg hne, ne_eq, reduceCtorEq, not_false_eq_true, and_true]
      | clear j =>
        have hne : ¬ i = j := fun h => hm h.symm
        simp only [move, if_neg hne, ne_eq, reduceCtorEq, not_false_eq_true, and_true]
      | strike p =>
        simp only [move, ne_eq, Move.strike.injEq]
        split_ifs with hp
        · rw [hp]
          exact iff_of_false (fun h => by cases h) fun h => h.2 (Option.some.inj h.1)
        · exact ⟨fun h => ⟨h, fun hpo => hp (hpo ▸ h)⟩, And.left⟩
    have hrest := ih (b := b.move m) hms o
    rw [hone] at hrest
    rw [List.mem_cons, not_or]
    exact hrest.trans ⟨fun h => ⟨h.1.1, Ne.symm h.1.2, h.2⟩, fun h => ⟨⟨h.1, Ne.symm h.2.1⟩, h.2.2⟩⟩

end Board

namespace Shelves

variable {ι κ : Type*} {p : κ → Prop} {s : Shelves ι κ}

/-! ## Refinement -/

/-- The board has the live objects of the shelves, each on its place. -/
structure Shows (s : Shelves ι κ) (b : Board ι κ) : Prop where
  made : b.made = s.made
  stands : ∀ i k o, b.stands i k = some o ↔ s.Live o ∧ s.place o = some (i, k)

theorem shows_empty (hmade : s.made = 0) : s.Shows Board.empty where
  made := hmade.symm
  stands i k o := by
    refine iff_of_false (fun h => by cases h) ?_
    rintro ⟨hlive, _⟩
    exact absurd (hmade ▸ hlive.1) (Nat.not_lt_zero o)

/-- A collection is no move. -/
theorem Shows.collect {b : Board ι κ} (h : s.Shows b) : s.collect.Shows b := ⟨h.made, h.stands⟩

variable [DecidableEq ι] [DecidableEq κ]

theorem Shows.kill {b : Board ι κ} (h : s.Shows b) (o : ℕ) : (s.kill o).Shows (b.move (.strike o)) where
  made := h.made
  stands i k o' := by
    rw [live_kill, and_right_comm]
    simp only [Board.move]
    split_ifs with ho
    · refine iff_of_false (fun heq => by cases heq) ?_
      rintro ⟨hat, hne⟩
      exact hne (Option.some.inj (((h.stands i k o').mpr hat).symm.trans ho))
    · constructor
      · exact fun heq => ⟨(h.stands i k o').mp heq, fun hoo => ho (hoo ▸ heq)⟩
      · exact fun hat => (h.stands i k o').mpr hat.1

theorem Shows.put {b : Board ι κ} (h : s.Shows b) {i : ι} {k : κ} (hv : s.Vacant i k) :
    (s.put i k).Shows (b.move (.put i k)) where
  made := congrArg (· + 1) h.made
  stands j l o := by
    rw [live_put]
    simp only [Board.move, h.made]
    split_ifs with hjl
    · obtain ⟨rfl, rfl⟩ := hjl
      constructor
      · rintro ho
        cases ho
        exact ⟨.inr rfl, place_put_made s j l⟩
      · rintro ⟨hlive | rfl, hplace⟩
        · rw [place_put_of_live hlive] at hplace
          exact absurd hplace (hv o hlive)
        · rfl
    · rw [h.stands j l o]
      constructor
      · rintro ⟨hlive, hplace⟩
        exact ⟨.inl hlive, (place_put_of_live hlive).trans hplace⟩
      · rintro ⟨hlive | rfl, hplace⟩
        · exact ⟨hlive, (place_put_of_live hlive).symm.trans hplace⟩
        · rw [place_put_made] at hplace
          cases hplace
          exact absurd ⟨rfl, rfl⟩ hjl

theorem Shows.clear {b : Board ι κ} (h : s.Shows b) (hs : Sound p s) (i : ι) :
    (s.clear i).Shows (b.move (.clear i)) where
  made := h.made
  stands j l o := by
    simp only [Board.move]
    split_ifs with hj
    · subst hj
      refine iff_of_false (fun heq => by cases heq) ?_
      rintro ⟨hlive, hplace⟩
      exact hs.vacant_clear j l o hlive hplace
    · rw [h.stands j l o, live_clear]
      constructor
      · rintro ⟨hlive, hplace⟩
        refine ⟨⟨hlive, fun hmem => ?_⟩, hplace⟩
        obtain ⟨_, k, hplace'⟩ := hs.entry i o hmem
        rw [hplace'] at hplace
        cases hplace
        exact hj rfl
      · exact fun hat => ⟨hat.1.1, hat.2⟩

omit [DecidableEq ι] [DecidableEq κ] in
/-- **There are no more live objects than places.** -/
theorem Sound.card_live_le (h : Sound p s) {places : Finset (ι × κ)}
    (hplaces : ∀ o i k, s.Live o → s.place o = some (i, k) → (i, k) ∈ places) :
    ((Finset.range s.made).filter fun o => s.dead o = false).card ≤ places.card := by
  have hlive : ∀ {o}, o ∈ (Finset.range s.made).filter (fun o => s.dead o = false) → s.Live o := by
    intro o ho
    obtain ⟨hmade, hdead⟩ := Finset.mem_filter.mp ho
    exact ⟨Finset.mem_range.mp hmade, hdead⟩
  rw [← Finset.card_map (s := places) Function.Embedding.some]
  refine Finset.card_le_card_of_injOn s.place ?_ ?_
  · intro o ho
    obtain ⟨i, k, hplace, _⟩ := h.listed o (hlive ho)
    rw [hplace]
    exact Finset.mem_coe.mpr (Finset.mem_map_of_mem _ (hplaces o i k (hlive ho) hplace))
  · intro o ho o' ho' heq
    exact h.single o o' (hlive ho) (hlive ho') heq

end Shelves

end EndlessRunner.Lib
