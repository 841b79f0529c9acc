import Mathlib.Analysis.SpecialFunctions.Trigonometric.Basic
import Arbor.Space.Mat4
import Arbor.Space.Quaternion
import Arbor.Proofs.Scalar

namespace Arbor

/-- The real numbers as coordinates. Buffers store them as they are. -/
noncomputable instance : Scalar ℝ where
  toZero := inferInstance
  toOne := inferInstance
  toAdd := inferInstance
  toSub := inferInstance
  toMul := inferInstance
  toDiv := inferInstance
  toNeg := inferInstance
  toBEq := ⟨fun x y => @decide (x = y) (Classical.propDecidable _)⟩
  toLT := inferInstance
  toLE := inferInstance
  decLt x y := Classical.propDecidable (x < y)
  decLe x y := Classical.propDecidable (x ≤ y)
  ofInt n := n
  pi := Real.pi
  sqrt := Real.sqrt
  sin := Real.sin
  cos := Real.cos
  isFinite _ := true
  single x := x
  cell x := ⌊x⌋

attribute [ext] Vec3 Vec4 Mat3 Mat4

theorem positiveApart_real : Scalar.PositiveApart ℝ := fun _ positive => decide_eq_false positive.ne'

theorem ofInt_two : (Scalar.ofInt 2 : ℝ) = 2 := Int.cast_ofNat 2

theorem sin_cos_unit (a : ℝ) : Scalar.sin a * Scalar.sin a + Scalar.cos a * Scalar.cos a = 1 := by
  have unit := Real.sin_sq_add_cos_sq a
  rwa [sq, sq] at unit

noncomputable def spread (n : Nat) : ℝ := 2 * Real.pi / n

theorem mul_spread {n : Nat} (nonzero : n ≠ 0) : n * spread n = 2 * Real.pi :=
  mul_div_cancel₀ _ (Nat.cast_ne_zero.mpr nonzero)

theorem sin_spread_pos {n : Nat} (three : 3 ≤ n) : 0 < Real.sin (spread n) := by
  have wide : (3 : ℝ) ≤ n := by exact_mod_cast three
  have pi := Real.pi_pos
  refine Real.sin_pos_of_pos_of_lt_pi (by unfold spread; positivity) ?_
  rw [spread, div_lt_iff₀ (by linarith)]
  nlinarith

namespace Vec3

theorem zero_eq {α : Type} [Scalar α] : (0 : Vec3 α) = ⟨0, 0, 0⟩ := rfl

theorem add_eq {α : Type} [Scalar α] (v w : Vec3 α) : v + w = ⟨v.x + w.x, v.y + w.y, v.z + w.z⟩ := rfl

theorem sub_eq {α : Type} [Scalar α] (v w : Vec3 α) : v - w = ⟨v.x - w.x, v.y - w.y, v.z - w.z⟩ := rfl

theorem neg_eq {α : Type} [Scalar α] (v : Vec3 α) : -v = ⟨-v.x, -v.y, -v.z⟩ := rfl

theorem add_sub_cancel_left (v w : Vec3 ℝ) : v + w - v = w := by
  ext <;> simp only [add_eq, sub_eq] <;> ring

theorem add_sub_cancel (v w : Vec3 ℝ) : v + (w - v) = w := by
  ext <;> simp only [add_eq, sub_eq] <;> ring

theorem add_neg (v w : Vec3 ℝ) : v + -w = v - w := by
  ext <;> simp only [add_eq, sub_eq, neg_eq] <;> ring

theorem scale_one (v : Vec3 ℝ) : v.scale 1 = v := by
  ext <;> exact one_mul _

noncomputable def distance (v w : Vec3 ℝ) : ℝ := (v - w).norm

theorem norm_scale_up {k : ℝ} (forward : 0 ≤ k) : (up.scale k : Vec3 ℝ).norm = k := by
  have square : (up.scale k : Vec3 ℝ).dot (up.scale k) = k * k := by
    simp only [dot, scale, up]
    ring
  rw [norm, square]
  exact Real.sqrt_mul_self forward

end Vec3

namespace Mat3

theorem mul_eq {α : Type} [Scalar α] (a b : Mat3 α) :
    a * b = ⟨b.transpose.apply a.r0, b.transpose.apply a.r1, b.transpose.apply a.r2⟩ := rfl

end Mat3

namespace Quaternion

theorem mul_eq {α : Type} [Scalar α] (p q : Quaternion α) :
    p * q =
      ⟨p.w * q.x + q.w * p.x + (p.y * q.z - p.z * q.y),
       p.w * q.y + q.w * p.y + (p.z * q.x - p.x * q.z),
       p.w * q.z + q.w * p.z + (p.x * q.y - p.y * q.x),
       p.w * q.w - p.x * q.x - p.y * q.y - p.z * q.z⟩ := rfl

end Quaternion

namespace Mat3

theorem mul_assoc (a b c : Mat3 ℝ) : a * b * c = a * (b * c) := by
  ext <;> simp only [mul_eq, apply, transpose, Vec3.dot] <;> ring

theorem mul_identity (m : Mat3 ℝ) : m * identity = m := by
  ext <;> simp only [mul_eq, apply, transpose, Vec3.dot, identity] <;> ring

theorem identity_apply (v : Vec3 ℝ) : identity.apply v = v := by
  ext <;> simp only [apply, Vec3.dot, identity] <;> ring

theorem mul_apply (a b : Mat3 ℝ) (v : Vec3 ℝ) : (a * b).apply v = a.apply (b.apply v) := by
  ext <;> simp only [mul_eq, apply, transpose, Vec3.dot] <;> ring

theorem apply_scale (m : Mat3 ℝ) (k : ℝ) (v : Vec3 ℝ) : m.apply (v.scale k) = (m.apply v).scale k := by
  ext <;> simp only [apply, Vec3.dot, Vec3.scale] <;> ring

theorem dot_apply (m : Mat3 ℝ) (v w : Vec3 ℝ) : (m.apply v).dot w = v.dot (m.transpose.apply w) := by
  simp only [apply, transpose, Vec3.dot]
  ring

end Mat3

namespace Mat4

theorem mul_eq {α : Type} [Scalar α] (a b : Mat4 α) :
    a * b = ⟨mulRow a.r0 b.transpose, mulRow a.r1 b.transpose, mulRow a.r2 b.transpose, mulRow a.r3 b.transpose⟩ := rfl

theorem mul_assoc (a b c : Mat4 ℝ) : a * b * c = a * (b * c) := by
  ext <;> simp only [mul_eq, mulRow, transpose, Vec4.dot] <;> ring

theorem ofParts_mul (a b : Mat3 ℝ) (t u : Vec3 ℝ) : ofParts a t * ofParts b u = ofParts (a * b) (a.apply u + t) := by
  ext <;> simp only [mul_eq, mulRow, transpose, Vec4.dot, ofParts, Mat3.mul_eq, Mat3.apply, Mat3.transpose, Vec3.dot,
    Vec3.add_eq] <;> ring

theorem mul_identity (m : Mat4 ℝ) : m * identity = m := by
  ext <;> simp only [mul_eq, mulRow, transpose, Vec4.dot, identity, ofParts, Mat3.identity, Vec3.zero_eq] <;> ring

theorem translation_mul (t u : Vec3 ℝ) : translation t * translation u = translation (t + u) := by
  ext <;> simp only [mul_eq, mulRow, transpose, Vec4.dot, translation, ofParts, Mat3.identity, Vec3.add_eq] <;> ring

theorem identity_apply (p : Vec3 ℝ) : identity.apply p = p := by
  ext <;> simp only [apply, identity, ofParts, turn, shift, Vec4.head, Mat3.apply, Mat3.identity, Vec3.dot, Vec3.add_eq,
    Vec3.zero_eq] <;> ring

theorem mul_ofParts_apply (m : Mat4 ℝ) (a : Mat3 ℝ) (t p : Vec3 ℝ) :
    (m * ofParts a t).apply p = m.apply ((ofParts a t).apply p) := by
  ext <;> simp only [apply, mul_eq, mulRow, transpose, Vec4.dot, ofParts, turn, shift, Vec4.head, Mat3.apply, Vec3.dot,
    Vec3.add_eq] <;> ring

theorem ofParts_apply_zero (a : Mat3 ℝ) (t : Vec3 ℝ) : (ofParts a t).apply 0 = t := by
  ext <;> simp only [apply, ofParts, turn, shift, Vec4.head, Mat3.apply, Vec3.dot, Vec3.add_eq, Vec3.zero_eq] <;> ring

theorem ofParts_apply_sub (a : Mat3 ℝ) (t p q : Vec3 ℝ) :
    (ofParts a t).apply p - (ofParts a t).apply q = a.apply (p - q) := by
  ext <;> simp only [apply, ofParts, turn, shift, Vec4.head, Mat3.apply, Vec3.dot, Vec3.add_eq, Vec3.sub_eq] <;> ring

theorem translation_apply (t p : Vec3 ℝ) : (translation t).apply p = p + t := by
  ext <;> simp only [apply, translation, ofParts, turn, shift, Vec4.head, Mat3.apply, Mat3.identity, Vec3.dot,
    Vec3.add_eq] <;> ring

theorem translation_neg_apply (t : Vec3 ℝ) : (translation (-t)).apply t = 0 := by
  ext <;> simp only [apply, translation, ofParts, turn, shift, Vec4.head, Mat3.apply, Mat3.identity, Vec3.dot,
    Vec3.add_eq, Vec3.neg_eq, Vec3.zero_eq] <;> ring

end Mat4

end Arbor
