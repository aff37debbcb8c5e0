import EndlessRunner.Lib.Machine
import Mathlib.Data.Set.Basic

/-!
# What events read and write

A state is seen through its parts. A `Footprint` says of each event which parts it may change, which decide whether
it can be taken, and from which parts the new value of a part is computed.

Two consequences. Events whose footprints do not meet may be taken in either order (`Footprint.Independent.commutes`).
And for parts that are computed from themselves alone, whatever else happens in a run may be left out
(`Footprint.slice`).
-/

set_option autoImplicit false

namespace EndlessRunner.Lib

open Machine

/-- The parts `ι` of the states of a machine, and what its events do with them. -/
structure Footprint {σ ε φ ι : Type*} (M : Machine σ ε φ) (V : ι → Type*) where
  view : σ → (p : ι) → V p
  /-- The parts make up the state. -/
  injective : Function.Injective view
  writes : ε → Set ι
  /-- The parts that decide whether the event can be taken. -/
  needs : ε → Set ι
  /-- The parts from which the new value of a part is computed. -/
  reads : ε → ι → Set ι
  frame : ∀ {s t : σ} {e : ε} {p : ι}, M.Step s e t → p ∉ writes e → view t p = view s p
  taken : ∀ {s t s' : σ} {e : ε}, M.Step s e t → (∀ p ∈ needs e, view s' p = view s p) → ∃ t', M.Step s' e t'
  value : ∀ {s t s' t' : σ} {e : ε} {p : ι}, M.Step s e t → M.Step s' e t' → p ∈ writes e →
    (∀ q ∈ reads e p, view s' q = view s q) → view t' p = view t p

namespace Footprint

variable {σ ε φ ι : Type*} {M : Machine σ ε φ} {V : ι → Type*} (F : Footprint M V)

/-! ## Independence -/

/-- The event changes nothing that the other one reads or writes. -/
def Spares (e f : ε) : Prop :=
  ∀ p ∈ F.writes e, p ∉ F.needs f ∧ p ∉ F.writes f ∧ ∀ q ∈ F.writes f, p ∉ F.reads f q

/-- Neither event touches what the other one works with. -/
def Independent (e f : ε) : Prop := F.Spares e f ∧ F.Spares f e

variable {F}

/-- An event that spares another leaves what that one needs and reads. -/
theorem Spares.view_eq {e f : ε} (h : F.Spares e f) {s t : σ} (hs : M.Step s e t) {p : ι}
    (hp : p ∈ F.needs f ∨ p ∈ F.writes f ∨ ∃ q ∈ F.writes f, p ∈ F.reads f q) : F.view t p = F.view s p := by
  apply F.frame hs
  intro hw
  obtain ⟨hneeds, hwrites, hreads⟩ := h p hw
  rcases hp with hp | hp | ⟨q, hq, hp⟩
  · exact hneeds hp
  · exact hwrites hp
  · exact hreads q hq hp

/-- **Independent events commute.** -/
theorem Independent.commutes {e f : ε} (h : F.Independent e f) : M.Commutes e f := by
  intro s t u he hf
  obtain ⟨t', ht'⟩ := F.taken hf fun p hp => (h.1.view_eq he (.inl hp)).symm
  obtain ⟨u', hu'⟩ := F.taken he fun p hp => h.2.view_eq ht' (.inl hp)
  have hsame : u' = u := by
    apply F.injective
    funext p
    by_cases hpe : p ∈ F.writes e
    · -- computed by `e`, from parts that `f` has left alone
      have hvalue := F.value he hu' hpe fun q hq => h.2.view_eq ht' (.inr (.inr ⟨p, hpe, hq⟩))
      rw [hvalue, F.frame hf (h.1 p hpe).2.1]
    · rw [F.frame hu' hpe]
      by_cases hpf : p ∈ F.writes f
      · exact F.value hf ht' hpf fun q hq => (h.1.view_eq he (.inr (.inr ⟨p, hpf, hq⟩))).symm
      · rw [F.frame ht' hpf, F.frame hf hpf, F.frame he hpe]
  exact ⟨t', ht', hsame ▸ hu'⟩

/-! ## Slices -/

variable (F) in
/-- The parts `P` are computed from themselves alone, by the events that are kept. -/
structure Closed (P : Set ι) (keep : ε → Bool) : Prop where
  dropped : ∀ e, keep e = false → ∀ p ∈ P, p ∉ F.writes e
  needs : ∀ e, keep e = true → F.needs e ⊆ P
  reads : ∀ e, keep e = true → ∀ p ∈ P, p ∈ F.writes e → F.reads e p ⊆ P

/-- **Slicing**: parts that are computed from themselves alone are after a run what they are after those of its events
that are kept. -/
theorem slice {P : Set ι} {keep : ε → Bool} (h : F.Closed P keep) {s t s' : σ} {es : List ε} (hr : M.Run s es t)
    (hs : ∀ p ∈ P, F.view s' p = F.view s p) :
    ∃ t', M.Run s' (es.filter keep) t' ∧ ∀ p ∈ P, F.view t' p = F.view t p := by
  apply hr.erase (R := fun x a => ∀ p ∈ P, F.view a p = F.view x p) _ _ hs
  · intro x e y a hk hst ha
    obtain ⟨b, hb⟩ := F.taken hst fun p hp => ha p (h.needs e hk hp)
    refine ⟨b, hb, ?_⟩
    intro p hp
    by_cases hw : p ∈ F.writes e
    · exact F.value hst hb hw fun q hq => ha q (h.reads e hk p hp hw hq)
    · rw [F.frame hb hw, F.frame hst hw]
      exact ha p hp
  · intro x e y a hk hst ha p hp
    rw [F.frame hst (h.dropped e hk p hp)]
    exact ha p hp

end Footprint

end EndlessRunner.Lib
