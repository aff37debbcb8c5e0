import EndlessRunner.Lib.Rounding
import Mathlib.Algebra.Quaternion
import Mathlib.Algebra.Order.Field.Basic
import Mathlib.Tactic.Ring

/-!
# The engine's vectors and transforms, in exact arithmetic

Scalars are an arbitrary field `K`, ordered where the code compares. Where the code adds up in a `float`, `binary32`
says what is kept of the exact sum. `FTransform` is the engine's rotation, translation and scale; `child * parent` is
the world transform of a component that sits at `child` relative to a parent at `parent`, by the engine's product for
scales that are not negative.
-/

set_option autoImplicit false

namespace EndlessRunner

/-! ## Numerals -/

-- The numerals of the source, once for every module: each is the same term wherever it is written.
instance atLeastTwo_2 : Nat.AtLeastTwo 2 := ⟨by decide⟩
instance atLeastTwo_3 : Nat.AtLeastTwo 3 := ⟨by decide⟩
instance atLeastTwo_5 : Nat.AtLeastTwo 5 := ⟨by decide⟩
instance atLeastTwo_10 : Nat.AtLeastTwo 10 := ⟨by decide⟩
instance atLeastTwo_255 : Nat.AtLeastTwo 255 := ⟨by decide⟩
instance atLeastTwo_600 : Nat.AtLeastTwo 600 := ⟨by decide⟩
instance atLeastTwo_6000 : Nat.AtLeastTwo 6000 := ⟨by decide⟩

/-! ## Vectors -/

/-- `FVector`. -/
@[ext]
structure FVector (K : Type*) where
  x : K
  y : K
  z : K
deriving DecidableEq, Repr

/-- `FVector2D`. -/
structure FVector2D (K : Type*) where
  x : K
  y : K
deriving DecidableEq, Repr

namespace FVector

variable {K : Type*} [Field K]

instance : Zero (FVector K) := ⟨⟨0, 0, 0⟩⟩
instance : Add (FVector K) := ⟨fun v w => ⟨v.x + w.x, v.y + w.y, v.z + w.z⟩⟩
instance : Neg (FVector K) := ⟨fun v => ⟨-v.x, -v.y, -v.z⟩⟩
instance : Sub (FVector K) := ⟨fun v w => ⟨v.x - w.x, v.y - w.y, v.z - w.z⟩⟩

/-- `FVector * float`. -/
instance : SMul K (FVector K) := ⟨fun s v => ⟨v.x * s, v.y * s, v.z * s⟩⟩

@[simp] theorem zero_x : (0 : FVector K).x = 0 := rfl
@[simp] theorem zero_y : (0 : FVector K).y = 0 := rfl
@[simp] theorem zero_z : (0 : FVector K).z = 0 := rfl
@[simp] theorem add_x (v w : FVector K) : (v + w).x = v.x + w.x := rfl
@[simp] theorem add_y (v w : FVector K) : (v + w).y = v.y + w.y := rfl
@[simp] theorem add_z (v w : FVector K) : (v + w).z = v.z + w.z := rfl
@[simp] theorem neg_x (v : FVector K) : (-v).x = -v.x := rfl
@[simp] theorem neg_y (v : FVector K) : (-v).y = -v.y := rfl
@[simp] theorem neg_z (v : FVector K) : (-v).z = -v.z := rfl
@[simp] theorem sub_x (v w : FVector K) : (v - w).x = v.x - w.x := rfl
@[simp] theorem sub_y (v w : FVector K) : (v - w).y = v.y - w.y := rfl
@[simp] theorem sub_z (v w : FVector K) : (v - w).z = v.z - w.z := rfl
@[simp] theorem smul_x (s : K) (v : FVector K) : (s • v).x = v.x * s := rfl
@[simp] theorem smul_y (s : K) (v : FVector K) : (s • v).y = v.y * s := rfl
@[simp] theorem smul_z (s : K) (v : FVector K) : (s • v).z = v.z * s := rfl

/-- Vectors add componentwise, so they form a commutative group. -/
instance : AddCommGroup (FVector K) where
  add_assoc u v w := by ext <;> simp [add_assoc]
  zero_add v := by ext <;> simp
  add_zero v := by ext <;> simp
  add_comm v w := by ext <;> simp [add_comm]
  neg_add_cancel v := by ext <;> simp
  sub_eq_add_neg v w := by ext <;> simp [sub_eq_add_neg]
  nsmul := nsmulRec
  zsmul := zsmulRec

/-- Componentwise product, as a scale acts on a vector. -/
def hadamard (v w : FVector K) : FVector K := ⟨v.x * w.x, v.y * w.y, v.z * w.z⟩

@[simp] theorem hadamard_zero (v : FVector K) : v.hadamard 0 = 0 := by
  ext <;> simp [hadamard]

/-- `FVector::DistSquared`. -/
def distSquared (v w : FVector K) : K :=
  (w.x - v.x) ^ 2 + (w.y - v.y) ^ 2 + (w.z - v.z) ^ 2

/-- `FMath::Lerp`, with no clamp of the factor. -/
def lerp (a b : FVector K) (alpha : K) : FVector K := a + alpha • (b - a)

end FVector

/-- `FQuat`. -/
abbrev FQuat (K : Type*) [Field K] := Quaternion K

/-- `FQuat::RotateVector`: with `T = 2 (Q × V)`, the result is `V + W T + Q × T`. -/
def FQuat.rotateVector {K : Type*} [Field K] (q : FQuat K) (v : FVector K) : FVector K :=
  let t : FVector K := ⟨2 * (q.imJ * v.z - q.imK * v.y), 2 * (q.imK * v.x - q.imI * v.z),
    2 * (q.imI * v.y - q.imJ * v.x)⟩
  ⟨v.x + q.re * t.x + (q.imJ * t.z - q.imK * t.y), v.y + q.re * t.y + (q.imK * t.x - q.imI * t.z),
    v.z + q.re * t.z + (q.imI * t.y - q.imJ * t.x)⟩

@[simp] theorem FQuat.rotateVector_one {K : Type*} [Field K] (v : FVector K) :
    FQuat.rotateVector 1 v = v := by
  ext <;> simp [FQuat.rotateVector, Quaternion.re_one, Quaternion.imI_one, Quaternion.imJ_one,
    Quaternion.imK_one]

@[simp] theorem FQuat.rotateVector_zero {K : Type*} [Field K] (q : FQuat K) : FQuat.rotateVector q 0 = 0 := by
  ext <;> simp [FQuat.rotateVector]

/-- `FTransform`. -/
@[ext]
structure FTransform (K : Type*) [Field K] where
  rotation : FQuat K
  translation : FVector K
  scale3D : FVector K

namespace FTransform

variable {K : Type*} [Field K]

/-- `FTransform::Identity`. -/
instance : One (FTransform K) := ⟨⟨1, 0, ⟨1, 1, 1⟩⟩⟩

/-- An unrotated, unscaled offset. -/
def ofOffset (v : FVector K) : FTransform K := ⟨1, v, ⟨1, 1, 1⟩⟩

/-- `FTransform::operator*`: the left factor is relative to the right one. -/
instance : Mul (FTransform K) where
  mul child parent :=
    { rotation := parent.rotation * child.rotation
      translation := FQuat.rotateVector parent.rotation (parent.scale3D.hadamard child.translation) +
        parent.translation
      scale3D := child.scale3D.hadamard parent.scale3D }

/-- The transform with another location. -/
def setLocation (t : FTransform K) (v : FVector K) : FTransform K := { t with translation := v }

/-- The transform moved by `d`. -/
def translate (t : FTransform K) (d : FVector K) : FTransform K :=
  { t with translation := t.translation + d }

@[simp] theorem mul_rotation (a b : FTransform K) : (a * b).rotation = b.rotation * a.rotation := rfl
@[simp] theorem mul_scale3D (a b : FTransform K) :
    (a * b).scale3D = a.scale3D.hadamard b.scale3D := rfl
theorem mul_translation (a b : FTransform K) : (a * b).translation =
    FQuat.rotateVector b.rotation (b.scale3D.hadamard a.translation) + b.translation := rfl

@[simp] theorem setLocation_rotation (t : FTransform K) (v : FVector K) :
    (t.setLocation v).rotation = t.rotation := rfl
@[simp] theorem setLocation_translation (t : FTransform K) (v : FVector K) :
    (t.setLocation v).translation = v := rfl
@[simp] theorem setLocation_scale3D (t : FTransform K) (v : FVector K) :
    (t.setLocation v).scale3D = t.scale3D := rfl
@[simp] theorem translate_rotation (t : FTransform K) (d : FVector K) :
    (t.translate d).rotation = t.rotation := rfl
@[simp] theorem translate_translation (t : FTransform K) (d : FVector K) :
    (t.translate d).translation = t.translation + d := rfl
@[simp] theorem translate_scale3D (t : FTransform K) (d : FVector K) :
    (t.translate d).scale3D = t.scale3D := rfl

/-- A child follows its parent's motion rigidly. -/
theorem mul_translate (a b : FTransform K) (d : FVector K) : a * b.translate d = (a * b).translate d := by
  apply FTransform.ext
  · rfl
  · simp only [mul_translation, translate_translation, translate_rotation, translate_scale3D, add_assoc]
  · rfl

/-- Where a child ends up when its parent is placed at `v`: the child's own offset is kept. -/
theorem mul_setLocation_translation (a b : FTransform K) (v : FVector K) :
    (a * b.setLocation v).translation = (a * b).translation - b.translation + v := by
  simp only [mul_translation, setLocation_translation, setLocation_rotation, setLocation_scale3D,
    add_sub_cancel_right]

/-- A child's offset from its parent depends on the parent's rotation and scale only. -/
theorem mul_translation_of_same {a b : FTransform K} (m : FTransform K) (hrotation : a.rotation = b.rotation)
    (hscale : a.scale3D = b.scale3D) :
    (m * a).translation = (m * b).translation - b.translation + a.translation := by
  simp only [mul_translation, hrotation, hscale, add_sub_cancel_right]

/-- A child of a parent that was placed at `t`'s location is at `t` when it has no offset from its parent, and
`t`'s rotation and scale. -/
theorem eq_mul_setLocation_iff (a b t : FTransform K) :
    t = a * b.setLocation t.translation ↔ (a * b).translation = b.translation ∧
      (a * b).rotation = t.rotation ∧ (a * b).scale3D = t.scale3D := by
  rw [FTransform.ext_iff, mul_setLocation_translation, right_eq_add, sub_eq_zero]
  constructor
  · rintro ⟨hr, ht, hs⟩
    exact ⟨ht, hr.symm, hs.symm⟩
  · rintro ⟨ht, hr, hs⟩
    exact ⟨hr.symm, ht, hs.symm⟩

/-- Two transforms that place a body alike: quaternions may differ that turn every vector alike. -/
structure Same (a b : FTransform K) : Prop where
  rotation : ∀ v, FQuat.rotateVector a.rotation v = FQuat.rotateVector b.rotation v
  translation : a.translation = b.translation
  scale3D : a.scale3D = b.scale3D

theorem Same.refl (a : FTransform K) : a.Same a := ⟨fun _ => rfl, rfl, rfl⟩

theorem Same.translate {a b : FTransform K} (h : a.Same b) (d : FVector K) : (a.translate d).Same (b.translate d) :=
  ⟨h.rotation, congrArg (· + d) h.translation, h.scale3D⟩

theorem eq_translate_iff (t : FTransform K) (d : FVector K) : t = t.translate d ↔ d = 0 := by
  rw [FTransform.ext_iff, translate_translation, left_eq_add]
  exact ⟨fun h => h.2.1, fun h => ⟨rfl, h, rfl⟩⟩

/-- An unrotated, unscaled parent only adds its location. -/
theorem mul_ofOffset_translation (a : FTransform K) (v : FVector K) :
    (a * ofOffset v).translation = a.translation + v := by
  simp only [mul_translation, ofOffset, FQuat.rotateVector_one]
  ext <;> simp [FVector.hadamard]

theorem ofOffset_mul_ofOffset (v w : FVector K) : ofOffset v * ofOffset w = ofOffset (w + v) := by
  apply FTransform.ext
  · exact mul_one _
  · rw [mul_ofOffset_translation]
    exact add_comm _ _
  · ext <;> simp [ofOffset, FVector.hadamard]

end FTransform

/-! ## Scalars -/

section Scalars

variable {K : Type*} [Field K] [LinearOrder K]

/-- `FMath::Sign`, as the integer it is converted to. -/
def sign (a : K) : ℤ := if 0 < a then 1 else if a < 0 then -1 else 0

/-- `FMath::Clamp` on integers. -/
def clamp (x lo hi : ℤ) : ℤ := if x < lo then lo else if x < hi then x else hi

/-- `UKismetMathLibrary::InRange_FloatFloat`. -/
def inRange (value lo hi : K) (inclusiveMin inclusiveMax : Bool) : Bool :=
  (if inclusiveMin then decide (lo ≤ value) else decide (lo < value)) &&
    (if inclusiveMax then decide (value ≤ hi) else decide (value < hi))

/-- What a `float` keeps of an exact sum: 23 binary places behind the leading one. A sum beyond the largest float is not
cut off to infinity. -/
def binary32 [IsStrictOrderedRing K] [FloorRing K] (x : K) : K := Lib.Rounding.round 23 x

theorem clamp_mem (x : ℤ) {lo hi : ℤ} (h : lo ≤ hi) : lo ≤ clamp x lo hi ∧ clamp x lo hi ≤ hi := by
  unfold clamp
  split_ifs <;> omega

end Scalars

end EndlessRunner
