import Mathlib.Algebra.Order.Field.Basic
import Mathlib.Data.List.Chain
import Mathlib.Tactic.Linarith
import Mathlib.Tactic.Ring

/-!
# An endless belt and a window of it

Things lie on a belt at equal distances, and the belt comes closer. What has come within reach is taken off.
How many things that is depends on the way the belt has come, and on nothing else (`Taken.unique`).

A list shows the belt from its `m`-th thing on when its `i`-th entry is where the belt has thing `m + i`. Such a
list splits into what is within reach and what is not, and the first part is as long as the count advances
(`Taken.advance`).
-/

set_option autoImplicit false

namespace EndlessRunner.Lib.Belt

variable {K : Type*} [Field K]

/-- How far away thing `j` is, when the first was `x` away and the belt has come `d` closer. -/
def place (x pitch d : K) (j : ℕ) : K := x + j * pitch - d

theorem place_add (x pitch d : K) (m i : ℕ) : place x pitch d (m + i) = place x pitch d m + i * pitch := by
  rw [place, place, Nat.cast_add]
  ring

theorem place_succ (x pitch d : K) (j : ℕ) : place x pitch d (j + 1) = place x pitch d j + pitch := by
  rw [place_add, Nat.cast_one, one_mul]

theorem place_closer (x pitch d e : K) (j : ℕ) : place x pitch (d + e) j = place x pitch d j - e := by
  rw [place, place]
  ring

/-- The list shows the belt from its `m`-th thing on. -/
def Shows {ι : Type*} (f : ι → K) (x pitch d : K) (m : ℕ) (s : List ι) : Prop :=
  ∀ i a, s[i]? = some a → f a = place x pitch d (m + i)

section Shows

variable {ι : Type*} {f : ι → K} {x pitch d : K} {m : ℕ} {a : ι} {s : List ι}

theorem shows_cons : Shows f x pitch d m (a :: s) ↔ f a = place x pitch d m ∧ Shows f x pitch d (m + 1) s := by
  constructor
  · intro h
    refine ⟨h 0 a rfl, fun i b hb => ?_⟩
    rw [h (i + 1) b hb, add_comm i 1, add_assoc]
  · intro ⟨ha, hs⟩ i b hb
    cases i with
    | zero =>
      cases hb
      exact ha
    | succ i => rw [hs i b hb, add_comm i 1, add_assoc]

/-- Entries at equal distances show the belt from where the first of them is. -/
theorem shows_of_isChain (h : s.IsChain fun a b => f b = f a + pitch) :
    ∀ {m : ℕ}, (∀ a, s.head? = some a → f a = place x pitch d m) → Shows f x pitch d m s := by
  induction s with
  | nil => exact fun _ i a ha => by simp at ha
  | cons a s ih =>
    intro m hhead
    have ha := hhead a rfl
    refine shows_cons.mpr ⟨ha, ih h.tail fun b hb => ?_⟩
    have hab : f b = f a + pitch := by
      cases s with
      | nil => cases hb
      | cons c s =>
        cases hb
        exact (List.isChain_cons_cons.mp h).1
    rw [hab, ha, place_succ]

/-- When everything has come closer, the same list shows the same things. -/
theorem Shows.closer {g : ι → K} {e : K} (h : Shows f x pitch d m s) (hg : ∀ a ∈ s, g a = f a - e) :
    Shows g x pitch (d + e) m s := by
  intro i a ha
  rw [hg a (List.mem_of_getElem? ha), h i a ha, place_closer]

/-- Where the second part of a list begins. -/
theorem Shows.head_right {p q : List ι} (h : Shows f x pitch d m (p ++ q)) (ha : q.head? = some a) :
    f a = place x pitch d (m + p.length) := by
  apply h
  rw [List.getElem?_append_right le_rfl, Nat.sub_self, ← List.head?_eq_getElem?]
  exact ha

end Shows

variable [LinearOrder K]

/-- Exactly the first `m` things are within reach. -/
def Taken (r x pitch d : K) (m : ℕ) : Prop := ∀ j, j < m ↔ place x pitch d j ≤ r

/-- **How many things were taken is settled by how far the belt has come.** -/
theorem Taken.unique {r x pitch d : K} {m n : ℕ} (h : Taken r x pitch d m) (h' : Taken r x pitch d n) :
    m = n :=
  eq_of_forall_lt_iff fun j => (h j).trans (h' j).symm

variable [IsStrictOrderedRing K]

section Split

variable {ι : Type*} {f : ι → K} {r x pitch d : K}

/-- What is beyond an entry is further away. -/
theorem Shows.le {m : ℕ} {a b : ι} {s : List ι} (h : Shows f x pitch d m (a :: s)) (hpitch : 0 < pitch)
    (hb : b ∈ a :: s) : f a ≤ f b := by
  obtain ⟨i, hi⟩ := List.mem_iff_getElem?.mp hb
  rw [h i b hi, h 0 a rfl, place_add, place_add]
  have : (0 : K) ≤ i * pitch := by positivity
  rw [Nat.cast_zero, zero_mul, add_zero]
  linarith

/-- What is within reach comes first. -/
theorem Shows.split {s : List ι} (hpitch : 0 < pitch) : ∀ {m : ℕ}, Shows f x pitch d m s →
    ∃ p q, s = p ++ q ∧ (∀ a ∈ p, f a ≤ r) ∧ ∀ a ∈ q, r < f a := by
  induction s with
  | nil => exact fun _ => ⟨[], [], rfl, by simp, by simp⟩
  | cons a s ih =>
    intro m h
    rcases le_or_gt (f a) r with hin | hout
    · obtain ⟨p, q, rfl, hp, hq⟩ := ih (shows_cons.mp h).2
      exact ⟨a :: p, q, rfl, List.forall_mem_cons.mpr ⟨hin, hp⟩, hq⟩
    · exact ⟨[], a :: s, rfl, by simp, fun b hb => hout.trans_le (h.le hpitch hb)⟩

/-- **What the list covers.** Each entry reaches as far as the next, so a point lies on one of them exactly when it
lies between the first and the end of the last. -/
theorem Shows.exists_cover_iff {z : K} {s : List ι} (hpitch : 0 < pitch) (hne : s ≠ []) : ∀ {m : ℕ},
    Shows f x pitch d m s → ((∃ a ∈ s, f a ≤ z ∧ z ≤ f a + pitch) ↔
      place x pitch d m ≤ z ∧ z ≤ place x pitch d (m + s.length)) := by
  intro m h
  constructor
  · intro ⟨a, ha, hlo, hhi⟩
    obtain ⟨i, hi⟩ := List.mem_iff_getElem?.mp ha
    obtain ⟨hlt, _⟩ := List.getElem?_eq_some_iff.mp hi
    have hle : ((i + 1 : ℕ) : K) * pitch ≤ s.length * pitch := by
      apply mul_le_mul_of_nonneg_right _ hpitch.le
      exact_mod_cast hlt
    have hfar : (0 : K) ≤ i * pitch := by positivity
    rw [h i a hi, place_add] at hlo hhi
    rw [Nat.cast_succ, add_mul, one_mul] at hle
    rw [place_add]
    exact ⟨by linarith, by linarith⟩
  · induction s generalizing m with
    | nil => exact absurd rfl hne
    | cons a s ih =>
      intro ⟨hlo, hhi⟩
      obtain ⟨ha, hs⟩ := shows_cons.mp h
      rcases le_or_gt z (f a + pitch) with hon | hbeyond
      · exact ⟨a, List.mem_cons_self, ha ▸ hlo, hon⟩
      · rw [ha, ← place_succ] at hbeyond
        rw [List.length_cons, add_comm s.length, ← add_assoc] at hhi
        have hne' : s ≠ [] := by
          rintro rfl
          exact absurd hhi (not_le_of_gt hbeyond)
        obtain ⟨b, hb, hcover⟩ := ih hne' hs ⟨hbeyond.le, hhi⟩
        exact ⟨b, List.mem_cons_of_mem a hb, hcover⟩

/-- **The count advances by what has come within reach**, as long as the list shows something that has not. -/
theorem Taken.advance {e : K} {m : ℕ} {p q : List ι} (h : Taken r x pitch d m) (hpitch : 0 < pitch)
    (he : 0 ≤ e) (hshows : Shows f x pitch (d + e) m (p ++ q)) (hp : ∀ a ∈ p, f a ≤ r) (hq : ∀ a ∈ q, r < f a)
    (hne : q ≠ []) : Taken r x pitch (d + e) (m + p.length) := by
  intro j
  constructor
  · intro hj
    rcases Nat.lt_or_ge j m with hold | hnew
    · have hle := (h j).mp hold
      rw [place_closer]
      linarith
    · obtain ⟨i, rfl⟩ := Nat.exists_eq_add_of_le hnew
      have hi : i < p.length := Nat.add_lt_add_iff_left.mp hj
      have hentry : (p ++ q)[i]? = some (p.get ⟨i, hi⟩) := by
        rw [List.getElem?_append_left hi]
        exact List.getElem?_eq_getElem hi
      rw [← hshows i _ hentry]
      exact hp _ (List.get_mem p _)
  · intro hle
    by_contra hj
    obtain ⟨i, rfl⟩ := Nat.exists_eq_add_of_le (Nat.le_of_not_lt hj)
    obtain ⟨a, ha⟩ := Option.isSome_iff_exists.mp (List.isSome_head?.mpr hne)
    have hout := hq a (List.mem_of_mem_head? ha)
    rw [hshows.head_right ha] at hout
    have hi : (0 : K) ≤ i * pitch := by positivity
    rw [place_add] at hle
    linarith

end Split

end EndlessRunner.Lib.Belt
