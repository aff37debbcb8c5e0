import Mathlib.Data.Option.Basic
import Mathlib.Data.List.Basic
import Mathlib.Data.Int.Notation

/-!
# What the engine stops the program for

A pointer is an `Option`; following a null one is `Fault.nullPointer`. A `TArray` is a list, and
the engine's range check on an index is `Fault.outOfRange`.
-/

set_option autoImplicit false

namespace EndlessRunner

/-- The two ways a step of the game can stop the program. -/
inductive Fault
  | nullPointer
  | outOfRange
deriving DecidableEq, Repr

/-- `Ptr->`. -/
def deref {α : Type} : Option α → Except Fault α
  | some a => .ok a
  | none => .error .nullPointer

@[simp] theorem deref_some {α : Type} (a : α) : deref (some a) = .ok a := rfl
@[simp] theorem deref_none {α : Type} : deref (none : Option α) = .error .nullPointer := rfl

/-- A sequence of two computations succeeds when the first does and then the second. -/
theorem bind_eq_ok {α β : Type} {x : Except Fault α} {f : α → Except Fault β} {b : β} :
    (x >>= f) = .ok b ↔ ∃ a, x = .ok a ∧ f a = .ok b := by
  cases x with
  | error e =>
    constructor
    · intro h; cases h
    · rintro ⟨a, h, _⟩; cases h
  | ok a =>
    constructor
    · exact fun h => ⟨a, rfl, h⟩
    · rintro ⟨b', h, h'⟩
      cases h
      exact h'

@[simp] theorem ok_bind {α β : Type} (a : α) (f : α → Except Fault β) :
    ((Except.ok a : Except Fault α) >>= f) = f a := rfl

@[simp] theorem error_bind {α β : Type} (e : Fault) (f : α → Except Fault β) :
    ((Except.error e : Except Fault α) >>= f) = .error e := rfl

/-- A computation with the calls it makes, in their order: those up to the one that faults, if one does. -/
structure Logged (ε α : Type) where
  calls : List ε
  result : Except Fault α

namespace Logged

variable {ε α β : Type}

instance : Monad (Logged ε) where
  pure a := ⟨[], .ok a⟩
  bind x f :=
    match x.result with
    | .ok a => ⟨x.calls ++ (f a).calls, (f a).result⟩
    | .error e => ⟨x.calls, .error e⟩

/-- One call, with its outcome. -/
def call (e : ε) (outcome : Except Fault α) : Logged ε α := ⟨[e], outcome⟩

@[simp] theorem call_ok_bind (e : ε) (a : α) (f : α → Logged ε β) :
    call e (.ok a) >>= f = ⟨e :: (f a).calls, (f a).result⟩ := rfl

@[simp] theorem call_error_bind (e : ε) (fault : Fault) (f : α → Logged ε β) :
    call e (.error fault) >>= f = ⟨[e], .error fault⟩ := rfl

end Logged

namespace TArray

variable {α : Type}

/-- `Array[i]`, with its range check. -/
def get (xs : List α) (i : ℤ) : Except Fault α :=
  if 0 ≤ i then
    match xs[i.toNat]? with
    | some a => .ok a
    | none => .error .outOfRange
  else .error .outOfRange

/-- `Array.RemoveAt(i)`, with its range check. -/
def removeAt (xs : List α) (i : ℤ) : Except Fault (List α) :=
  if 0 ≤ i ∧ i.toNat < xs.length then .ok (xs.eraseIdx i.toNat) else .error .outOfRange

/-- `Array.Remove(a)`: every entry equal to `a` goes, the others keep their order. -/
def remove [DecidableEq α] (xs : List α) (a : α) : List α := xs.filter (· ≠ a)

theorem get_eq_ok {xs : List α} {i : ℤ} {a : α} :
    get xs i = .ok a ↔ 0 ≤ i ∧ xs[i.toNat]? = some a := by
  unfold get
  split_ifs with h
  · cases hx : xs[i.toNat]? with
    | none => simp only [reduceCtorEq, and_false]
    | some b => simp only [Except.ok.injEq, Option.some.injEq, h, true_and]
  · simp only [h, false_and]

theorem exists_get {xs : List α} {i : ℤ} (h : 0 ≤ i) (hlt : i < xs.length) : ∃ a, get xs i = .ok a :=
  have hi : i.toNat < xs.length := by omega
  ⟨xs[i.toNat], get_eq_ok.mpr ⟨h, List.getElem?_eq_getElem hi⟩⟩

theorem get_append_left {xs : List α} (ys : List α) {i : ℤ} (h : i < xs.length) : get (xs ++ ys) i = get xs i := by
  unfold get
  split_ifs with h0
  · rw [List.getElem?_append_left (by omega)]
  · rfl

theorem removeAt_eq_ok {xs ys : List α} {i : ℤ} :
    removeAt xs i = .ok ys ↔ 0 ≤ i ∧ i.toNat < xs.length ∧ ys = xs.eraseIdx i.toNat := by
  unfold removeAt
  split_ifs with h
  · simp only [Except.ok.injEq, h, true_and, eq_comm]
  · simp only [false_iff]
    exact fun h' => h ⟨h'.1, h'.2.1⟩

theorem get_natCast {xs : List α} {n : ℕ} (h : n < xs.length) : get xs n = .ok xs[n] :=
  get_eq_ok.mpr ⟨Int.natCast_nonneg n, List.getElem?_eq_getElem h⟩

theorem removeAt_natCast {xs : List α} {n : ℕ} (h : n < xs.length) : removeAt xs n = .ok (xs.eraseIdx n) :=
  removeAt_eq_ok.mpr ⟨Int.natCast_nonneg n, h, rfl⟩

/-- Reading an array never follows a pointer. -/
theorem get_ne_nullPointer (xs : List α) (i : ℤ) : get xs i ≠ .error .nullPointer := by
  unfold get
  split_ifs
  · cases xs[i.toNat]? <;> simp
  · simp

/-- `Array[Array.Num() - 1]` is the last entry, and is out of range on an empty array. -/
theorem get_last (xs : List α) :
    get xs ((xs.length : ℤ) - 1) = (xs.getLast?.elim (.error .outOfRange) .ok) := by
  rcases List.eq_nil_or_concat xs with rfl | ⟨ys, y, rfl⟩
  · rfl
  · have hidx : (((ys ++ [y]).length : ℤ) - 1) = (ys.length : ℤ) := by
      simp only [List.length_append, List.length_singleton]
      omega
    rw [List.concat_eq_append, hidx, List.getLast?_concat]
    simp [get]

end TArray

end EndlessRunner
