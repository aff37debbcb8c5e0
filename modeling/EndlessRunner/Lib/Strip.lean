import Mathlib.Algebra.Group.Basic
import Mathlib.Data.List.Chain
import Mathlib.Data.List.Nodup

/-!
# A strip of pieces laid end to end

A strip is a list of pieces, each with its place and with its reach, which it keeps for ever. The strip can be
shifted as a whole, and a piece can go to its end, where it is laid against the piece that was last.

Sending a piece away from the middle leaves a gap. `joined_run` says when the gap closes: the pieces of a
proper prefix are sent to the end, each once and in any order, with shifts in between.
-/

set_option autoImplicit false

namespace EndlessRunner.Lib

/-- A piece at `pos`, whose successor is laid at `pos + reach`. -/
structure Piece (ι V : Type*) where
  id : ι
  pos : V
  reach : V

/-- Where a successor is laid. -/
def Piece.tip {ι V : Type*} [Add V] (p : Piece ι V) : V := p.pos + p.reach

/-- The pieces, from the first to the last. -/
abbrev Strip (ι V : Type*) := List (Piece ι V)

namespace Strip

/-- What is done to a strip. -/
inductive Move (ι V : Type*)
  | shift (d : V)
  | toEnd (i : ι)

/-- The pieces that a sequence of moves sends to the end. -/
def sent {ι V : Type*} : List (Move ι V) → List ι
  | [] => []
  | .shift _ :: ms => sent ms
  | .toEnd i :: ms => i :: sent ms

def ids {ι V : Type*} (s : Strip ι V) : List ι := s.map Piece.id

theorem sent_append {ι V : Type*} (ms ns : List (Move ι V)) : sent (ms ++ ns) = sent ms ++ sent ns := by
  induction ms with
  | nil => rfl
  | cons m ms ih =>
    cases m with
    | shift d => exact ih
    | toEnd i => exact congrArg (i :: ·) ih

theorem sent_map_toEnd {ι V : Type*} (is : List ι) : sent (is.map (Move.toEnd : ι → Move ι V)) = is := by
  induction is with
  | nil => rfl
  | cons i is ih => exact congrArg (i :: ·) ih

theorem ids_append {ι V : Type*} (s t : Strip ι V) : ids (s ++ t) = ids s ++ ids t := List.map_append

variable {ι V : Type*} [AddCommGroup V]

/-- Each piece but the first lies at the tip of the one before it. -/
def Joined (s : Strip ι V) : Prop := s.IsChain fun a b => b.pos = a.tip

def shift (d : V) (s : Strip ι V) : Strip ι V := s.map fun p => { p with pos := p.pos + d }

theorem ids_shift (d : V) (s : Strip ι V) : ids (shift d s) = ids s := List.map_map

theorem joined_shift {s : Strip ι V} (d : V) (h : Joined s) : Joined (shift d s) := by
  apply List.isChain_map_of_isChain _ _ h
  intro a b hab
  show b.pos + d = a.pos + d + a.reach
  rw [hab, Piece.tip, add_right_comm]

/-- A piece laid at the tip of the last one extends the strip. -/
theorem joined_snoc {s : Strip ι V} {last p : Piece ι V} (h : Joined s) (hlast : s.getLast? = some last)
    (hp : p.pos = last.tip) : Joined (s ++ [p]) := by
  apply List.isChain_append.mpr
  refine ⟨h, List.isChain_singleton p, ?_⟩
  intro x hx y hy
  cases hlast.symm.trans hx
  cases hy
  exact hp

variable [DecidableEq ι]

/-- Piece `i` goes to the end, against the piece that is last when it goes. -/
def toEnd (i : ι) (s : Strip ι V) : Strip ι V :=
  match s.find? (·.id = i), s.getLast? with
  | some p, some last => s.filter (·.id ≠ i) ++ [{ p with pos := last.tip }]
  | _, _ => s

/-- A sequence of moves, one after the other. -/
def run : List (Move ι V) → Strip ι V → Strip ι V
  | [], s => s
  | .shift d :: ms, s => run ms (shift d s)
  | .toEnd i :: ms, s => run ms (toEnd i s)

theorem run_append (ms ns : List (Move ι V)) (s : Strip ι V) : run (ms ++ ns) s = run ns (run ms s) := by
  induction ms generalizing s with
  | nil => rfl
  | cons m ms ih =>
    cases m with
    | shift d => exact ih (shift d s)
    | toEnd i => exact ih (toEnd i s)

/-- A piece of the front goes to the end: the back grows by it, and stays joined. -/
theorem toEnd_of_mem {p q : Strip ι V} {i : ι} (hi : i ∈ ids p) (hnodup : (ids (p ++ q)).Nodup) (hq : q ≠ [])
    (hjoined : Joined q) :
    ∃ x : Piece ι V, x.id = i ∧ toEnd i (p ++ q) = p.filter (·.id ≠ i) ++ (q ++ [x]) ∧ Joined (q ++ [x]) := by
  obtain ⟨a, ha, hai⟩ := List.mem_map.mp hi
  obtain ⟨x, hx⟩ : ∃ x, p.find? (·.id = i) = some x := by
    apply Option.isSome_iff_exists.mp
    apply List.find?_isSome.mpr
    exact ⟨a, ha, by simpa using hai⟩
  have hxi : x.id = i := by simpa using List.find?_some hx
  have hfind : (p ++ q).find? (·.id = i) = some x := by
    rw [List.find?_append, hx, Option.some_or]
  obtain ⟨last, hlast⟩ : ∃ last, q.getLast? = some last :=
    ⟨q.getLast hq, List.getLast?_eq_some_getLast hq⟩
  have hlast' : (p ++ q).getLast? = some last := by
    rw [List.getLast?_append, hlast, Option.some_or]
  have hkeep : q.filter (·.id ≠ i) = q := by
    apply List.filter_eq_self.mpr
    intro b hb
    rw [ids_append] at hnodup
    have hne : i ≠ b.id := (List.nodup_append.mp hnodup).2.2 i hi b.id (List.mem_map_of_mem hb)
    exact decide_eq_true hne.symm
  refine ⟨{ x with pos := last.tip }, hxi, ?_, joined_snoc hjoined hlast rfl⟩
  simp only [toEnd, hfind, hlast', List.filter_append, hkeep, List.append_assoc]

/-- What is left of the front has the other pieces, and the strip has the pieces that it had. -/
theorem toEnd_front {p q : Strip ι V} {i : ι} (hi : i ∈ ids p) (hnodup : (ids (p ++ q)).Nodup) (hq : q ≠ [])
    (hjoined : Joined q) :
    ∃ (p' : Strip ι V) (x : Piece ι V), x.id = i ∧ toEnd i (p ++ q) = p' ++ (q ++ [x]) ∧ Joined (q ++ [x]) ∧
      ids p' = (ids p).erase i ∧ (ids (p' ++ (q ++ [x]))).Nodup := by
  obtain ⟨x, hxi, hto, hjoined'⟩ := toEnd_of_mem hi hnodup hq hjoined
  have hnodup' : (ids p ++ ids q).Nodup := ids_append p q ▸ hnodup
  have hfilter : ids (p.filter (·.id ≠ i)) = (ids p).erase i := by
    rw [(List.nodup_append.mp hnodup').1.erase_eq_filter, ids, ids, List.filter_map]
    congr 2
    funext a
    simp only [Function.comp_apply, decide_not, bne, beq_eq_decide]
  refine ⟨_, x, hxi, hto, hjoined', hfilter, ?_⟩
  have hmoved : (ids (p ++ q)).Perm (ids (p.filter (·.id ≠ i) ++ (q ++ [x]))) := by
    have hx : ids [x] = [i] := congrArg (fun j => [j]) hxi
    rw [ids_append, ids_append, ids_append, hfilter, hx, ← List.append_assoc]
    refine ((List.perm_cons_erase hi).append_right _).trans ?_
    exact (List.perm_append_singleton i _).symm
  exact hmoved.nodup_iff.mp hnodup

/-- **Sending the front to the end, in any order, leaves no gap.** The induction is on the moves: the front
shrinks by each piece that is sent, and the back, which is joined, grows by it. -/
theorem joined_run (ms : List (Move ι V)) : ∀ {p q : Strip ι V}, (ids (p ++ q)).Nodup → q ≠ [] → Joined q →
    (sent ms).Perm (ids p) → Joined (run ms (p ++ q)) := by
  induction ms with
  | nil =>
    intro p q _ _ hjoined hperm
    have hp : p = [] := List.map_eq_nil_iff.mp (List.nil_perm.mp hperm)
    rw [hp]
    exact hjoined
  | cons m ms ih =>
    intro p q hnodup hq hjoined hperm
    cases m with
    | shift d =>
      have hsplit : shift d (p ++ q) = shift d p ++ shift d q := List.map_append
      rw [run, hsplit]
      apply ih
      · rw [← hsplit, ids_shift]
        exact hnodup
      · exact fun h => hq (List.map_eq_nil_iff.mp h)
      · exact joined_shift d hjoined
      · rw [ids_shift]
        exact hperm
    | toEnd i =>
      obtain ⟨hi, hrest⟩ := List.cons_perm_iff_perm_erase.mp hperm
      obtain ⟨p', x, hxi, hto, hjoined', hids, hnodup'⟩ := toEnd_front hi hnodup hq hjoined
      rw [run, hto]
      apply ih hnodup' (List.append_ne_nil_of_left_ne_nil hq _) hjoined'
      rw [hids]
      exact hrest

/-- **The back becomes the front.** When nothing else is done, it stays where it is, and the pieces that are
sent follow it in the order in which they are sent. -/
theorem run_toEnd (is : List ι) : ∀ {p q : Strip ι V}, (ids (p ++ q)).Nodup → q ≠ [] → Joined q →
    is.Perm (ids p) → ∃ p', run (is.map .toEnd) (p ++ q) = q ++ p' ∧ ids p' = is := by
  induction is with
  | nil =>
    intro p q _ _ _ hperm
    have hp : p = [] := List.map_eq_nil_iff.mp (List.nil_perm.mp hperm)
    rw [hp]
    exact ⟨[], (List.append_nil q).symm, rfl⟩
  | cons i is ih =>
    intro p q hnodup hq hjoined hperm
    obtain ⟨hi, hrest⟩ := List.cons_perm_iff_perm_erase.mp hperm
    obtain ⟨p', x, hxi, hto, hjoined', hids, hnodup'⟩ := toEnd_front hi hnodup hq hjoined
    obtain ⟨p'', hrun, hids'⟩ := ih hnodup' (List.append_ne_nil_of_left_ne_nil hq _) hjoined'
      (by rw [hids]; exact hrest)
    refine ⟨x :: p'', ?_, ?_⟩
    · rw [List.map_cons, run, hto, hrun, List.append_assoc, List.singleton_append]
    · rw [← hxi, ← hids']
      rfl

end Strip

end EndlessRunner.Lib
