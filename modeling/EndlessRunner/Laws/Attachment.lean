import EndlessRunner.Laws.Frames
import Mathlib.Algebra.Order.Ring.Rat
import Mathlib.Tactic.LinearCombination
import Mathlib.Tactic.NormNum

/-!
# An obstacle on its lane

`SpawnObstacles` spawns the obstacle with the lane arrow's world transform, attaches it with the rule that keeps its
relative transform, and clears its relative location. So the obstacle has the arrow's rotation and scale twice, once of
its own and once from its parent, and sits as the arrow does only where neither matters
(`World.sits_on_lane_iff`).
-/

set_option autoImplicit false

namespace EndlessRunner

variable {K : Type} [Field K]

/-! ## Turning twice -/

namespace FQuat

/-- A quaternion without imaginary part turns nothing. -/
theorem rotateVector_of_im {q : FQuat K} (hi : q.imI = 0) (hj : q.imJ = 0) (hk : q.imK = 0) (v : FVector K) :
    rotateVector q v = v := by
  ext <;> simp [rotateVector, hi, hj, hk]

variable [LinearOrder K] [IsStrictOrderedRing K]

theorem im_eq_zero_of_sq {i j k : K} (h : i ^ 2 + j ^ 2 + k ^ 2 = 0) : i = 0 ∧ j = 0 ∧ k = 0 := by
  have hi := sq_nonneg i
  have hj := sq_nonneg j
  have hk := sq_nonneg k
  exact ⟨pow_eq_zero_iff two_ne_zero |>.mp (by linarith), pow_eq_zero_iff two_ne_zero |>.mp (by linarith),
    pow_eq_zero_iff two_ne_zero |>.mp (by linarith)⟩

/-- **Only a quaternion without imaginary part turns nothing.** -/
theorem rotateVector_eq_self_iff {q : FQuat K} :
    (∀ v, rotateVector q v = v) ↔ q.imI = 0 ∧ q.imJ = 0 ∧ q.imK = 0 := by
  refine ⟨fun h => ?_, fun h => rotateVector_of_im h.1 h.2.1 h.2.2⟩
  have hx := congrArg FVector.x (h ⟨1, 0, 0⟩)
  have hy := congrArg FVector.y (h ⟨0, 1, 0⟩)
  have hz := congrArg FVector.z (h ⟨0, 0, 1⟩)
  simp only [rotateVector] at hx hy hz
  apply im_eq_zero_of_sq
  linear_combination (-1 / 4) * (hx + hy + hz)

/-- **To turn by a quaternion once and twice is the same only if it turns nothing.** -/
theorem rotateVector_mul_self_iff {q : FQuat K} :
    (∀ v, rotateVector (q * q) v = rotateVector q v) ↔ ∀ v, rotateVector q v = v := by
  constructor
  · intro h
    refine rotateVector_eq_self_iff.mpr (im_eq_zero_of_sq ?_)
    have hx := h ⟨1, 0, 0⟩
    have hy := h ⟨0, 1, 0⟩
    have hz := h ⟨0, 0, 1⟩
    simp only [rotateVector, Quaternion.re_mul, Quaternion.imI_mul, Quaternion.imJ_mul, Quaternion.imK_mul,
      FVector.mk.injEq] at hx hy hz
    obtain ⟨hxx, hxy, hxz⟩ := hx
    obtain ⟨hyx, hyy, hyz⟩ := hy
    obtain ⟨hzx, hzy, hzz⟩ := hz
    by_contra hn
    -- the diagonal of the rotation matrix decides the real part
    have hre : 4 * q.re ^ 2 = 1 := by
      have hprod : (4 * q.re ^ 2 - 1) * (q.imI ^ 2 + q.imJ ^ 2 + q.imK ^ 2) = 0 := by
        linear_combination (-1 / 4) * (hxx + hyy + hzz)
      exact sub_eq_zero.mp ((mul_eq_zero.mp hprod).resolve_right hn)
    -- and its antisymmetric part then asks for a negative sum of squares
    have hk : q.re * (2 * (q.re ^ 2 - (q.imI ^ 2 + q.imJ ^ 2 + q.imK ^ 2)) - 1) * q.imK = 0 := by
      linear_combination (1 / 4) * (hxy - hyx)
    have hj : q.re * (2 * (q.re ^ 2 - (q.imI ^ 2 + q.imJ ^ 2 + q.imK ^ 2)) - 1) * q.imJ = 0 := by
      linear_combination (1 / 4) * (hzx - hxz)
    have hi : q.re * (2 * (q.re ^ 2 - (q.imI ^ 2 + q.imJ ^ 2 + q.imK ^ 2)) - 1) * q.imI = 0 := by
      linear_combination (1 / 4) * (hyz - hzy)
    have hprod : q.re * (2 * (q.re ^ 2 - (q.imI ^ 2 + q.imJ ^ 2 + q.imK ^ 2)) - 1) *
        (q.imI ^ 2 + q.imJ ^ 2 + q.imK ^ 2) = 0 := by
      linear_combination q.imI * hi + q.imJ * hj + q.imK * hk
    have hne : q.re ≠ 0 := by
      intro hzero
      simp [hzero] at hre
    have hsq := (mul_eq_zero.mp ((mul_eq_zero.mp hprod).resolve_right hn)).resolve_left hne
    linarith [sq_nonneg q.imI, sq_nonneg q.imJ, sq_nonneg q.imK]
  · intro h
    obtain ⟨hi, hj, hk⟩ := rotateVector_eq_self_iff.mp h
    intro v
    rw [rotateVector_of_im hi hj hk]
    apply rotateVector_of_im <;> simp [Quaternion.imI_mul, Quaternion.imJ_mul, Quaternion.imK_mul, hi, hj, hk]

end FQuat

/-! ## The obstacle -/

namespace World

/-- The transform turns nothing, and each part of its scale is zero or one. -/
structure Plain (t : FTransform K) : Prop where
  unturned : ∀ v, FQuat.rotateVector t.rotation v = v
  x : t.scale3D.x = 0 ∨ t.scale3D.x = 1
  y : t.scale3D.y = 0 ∨ t.scale3D.y = 1
  z : t.scale3D.z = 0 ∨ t.scale3D.z = 1

theorem hadamard_self_iff {v : FVector K} :
    v.hadamard v = v ↔ (v.x = 0 ∨ v.x = 1) ∧ (v.y = 0 ∨ v.y = 1) ∧ (v.z = 0 ∨ v.z = 1) := by
  rw [FVector.ext_iff]
  exact and_congr IsIdempotentElem.iff_eq_zero_or_one
    (and_congr IsIdempotentElem.iff_eq_zero_or_one IsIdempotentElem.iff_eq_zero_or_one)

/-- The lanes do not depend on the obstacles. -/
theorem laneTransform_withObstacle (w : World K) (t : TileId) (l : Lane) :
    ((w.withObstacle t l).tiles t).laneTransform l = (w.tiles t).laneTransform l := by
  rw [tiles_withObstacle_self]
  rfl

/-- **Where an obstacle is put**: at the lane arrow, with the arrow's rotation and scale of its own as well. -/
theorem obstacleTransform_withObstacle (w : World K) (t : TileId) (l : Lane) :
    (w.withObstacle t l).obstacleTransform w.numObstacles =
      ((w.tiles t).laneTransform l).setLocation 0 * (w.tiles t).laneTransform l := by
  rw [← laneTransform_withObstacle w t l]
  simp only [obstacleTransform, withObstacle, Function.update_self, GroundTile.laneTransform]

variable [LinearOrder K] [IsStrictOrderedRing K]

theorem setLocation_mul_same_iff {t : FTransform K} : (t.setLocation 0 * t).Same t ↔ Plain t := by
  have hplace : (t.setLocation 0 * t).translation = t.translation := by
    rw [FTransform.mul_translation]
    simp
  constructor
  · intro h
    obtain ⟨hx, hy, hz⟩ := hadamard_self_iff.mp h.scale3D
    exact ⟨FQuat.rotateVector_mul_self_iff.mp h.rotation, hx, hy, hz⟩
  · intro h
    exact ⟨FQuat.rotateVector_mul_self_iff.mpr h.unturned, hplace, hadamard_self_iff.mpr ⟨h.x, h.y, h.z⟩⟩

/-- **An obstacle sits on its lane with the lane's orientation and size exactly when the lane arrow is not turned and
each part of its scale is zero or one.** -/
theorem sits_on_lane_iff {w w' : World K} {draw : ObstacleDraw K} {t : TileId} {l : Lane}
    (wanted : draw.wanted = true) (spawned : w.spawnObstacles draw (some t) l.index = .ok w') :
    (w'.obstacleTransform w.numObstacles).Same ((w'.tiles t).laneTransform l) ↔
      Plain ((w.tiles t).laneTransform l) := by
  by_cases hsafe : draw.Safe
  · cases (spawnObstacles_of_safe hsafe w t l).symm.trans spawned
    rw [withDraw, if_pos wanted, obstacleTransform_withObstacle, laneTransform_withObstacle]
    exact setLocation_mul_same_iff
  · cases (spawnObstacles_of_not_safe hsafe w t l).symm.trans spawned

/-- A tile whose left lane arrow is turned and whose right one is twice as large. -/
def turnedLane : World ℚ := started { TileClass.ofOffsets 0 0 0 0 0 with
    leftLane := ⟨⟨3 / 5, 0, 0, 4 / 5⟩, ⟨0, -255, 0⟩, ⟨1, 1, 1⟩⟩
    rightLane := ⟨1, ⟨0, 255, 0⟩, ⟨2, 2, 2⟩⟩ } 0 (some ()) .bare

theorem spawnObstacles_turnedLane (l : Lane) :
    turnedLane.spawnObstacles ⟨1, true⟩ (some 0) l.index = .ok (turnedLane.withDraw ⟨1, true⟩ 0 l) :=
  spawnObstacles_of_safe (by decide +kernel) _ _ _

/-- An obstacle on the centre lane. -/
theorem sits_on_center_lane :
    ((turnedLane.withDraw ⟨1, true⟩ 0 .center).obstacleTransform 0).Same
      (((turnedLane.withDraw ⟨1, true⟩ 0 .center).tiles 0).laneTransform .center) := by
  have hrotation : ((turnedLane.tiles 0).laneTransform .center).rotation = 1 :=
    Quaternion.ext _ _ (by decide +kernel) (by decide +kernel) (by decide +kernel) (by decide +kernel)
  refine (sits_on_lane_iff (w := turnedLane) (by decide +kernel) (spawnObstacles_turnedLane .center)).mpr ?_
  exact ⟨fun v => by rw [hrotation, FQuat.rotateVector_one], .inr (by decide +kernel), .inr (by decide +kernel),
    .inr (by decide +kernel)⟩

/-- An obstacle on a lane that is turned is turned twice. -/
theorem not_sits_on_lane :
    ¬ ∀ (w w' : World ℚ) (draw : ObstacleDraw ℚ) (t : TileId) (l : Lane), draw.wanted = true →
      w.spawnObstacles draw (some t) l.index = .ok w' →
      (w'.obstacleTransform w.numObstacles).Same ((w'.tiles t).laneTransform l) := by
  intro h
  have hsame := h _ _ _ 0 .left (by decide +kernel) (spawnObstacles_turnedLane .left)
  exact absurd (congrArg FVector.x (hsame.rotation ⟨1, 0, 0⟩)) (by decide +kernel)

end World

end EndlessRunner
