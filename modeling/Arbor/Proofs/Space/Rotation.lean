import Mathlib.LinearAlgebra.UnitaryGroup
import Mathlib.LinearAlgebra.Matrix.Determinant.Basic
import Arbor.Proofs.Space.Exact

namespace Arbor

namespace Quaternion

theorem toMat3_mul (p q : Quaternion ℝ) : (p * q).toMat3 = p.toMat3 * q.toMat3 := by
  ext <;> simp only [mul_eq, Mat3.mul_eq, toMat3, Mat3.apply, Mat3.transpose, Vec3.dot, ofInt_two] <;> ring

theorem half_angle (a : ℝ) :
    Scalar.sin a = 2 * Scalar.sin (half a) * Scalar.cos (half a) ∧
      Scalar.cos a = Scalar.cos (half a) * Scalar.cos (half a) - Scalar.sin (half a) * Scalar.sin (half a) ∧
      Scalar.sin (half a) * Scalar.sin (half a) + Scalar.cos (half a) * Scalar.cos (half a) = 1 := by
  have twice : 2 * half a = a := by
    rw [half, ofInt_two]
    exact mul_div_cancel₀ a two_ne_zero
  have sine := Real.sin_two_mul (half a)
  have cosine := Real.cos_two_mul' (half a)
  rw [twice] at sine cosine
  rw [sq, sq] at cosine
  exact ⟨sine, cosine, sin_cos_unit (half a)⟩

theorem toMat3_aboutX (a : ℝ) : (aboutX a).toMat3 = Mat3.aboutX a := by
  obtain ⟨sine, cosine, unit⟩ := half_angle a
  ext <;> simp only [aboutX, toMat3, Mat3.aboutX, ofInt_two, sine, cosine]
  case r0.x => linear_combination unit
  all_goals ring

theorem toMat3_aboutY (a : ℝ) : (aboutY a).toMat3 = Mat3.aboutY a := by
  obtain ⟨sine, cosine, unit⟩ := half_angle a
  ext <;> simp only [aboutY, toMat3, Mat3.aboutY, ofInt_two, sine, cosine]
  case r1.y => linear_combination unit
  all_goals ring

theorem toMat3_aboutZ (a : ℝ) : (aboutZ a).toMat3 = Mat3.aboutZ a := by
  obtain ⟨sine, cosine, unit⟩ := half_angle a
  ext <;> simp only [aboutZ, toMat3, Mat3.aboutZ, ofInt_two, sine, cosine]
  case r2.z => linear_combination unit
  all_goals ring

end Quaternion

namespace Mat3

theorem ofEuler_eq (angles : Vec3 ℝ) : ofEuler angles = aboutZ angles.z * aboutY angles.y * aboutX angles.x := by
  rw [ofEuler, Quaternion.ofEuler, Quaternion.toMat3_mul, Quaternion.toMat3_mul, Quaternion.toMat3_aboutX,
    Quaternion.toMat3_aboutY, Quaternion.toMat3_aboutZ, mul_assoc]

theorem ofEuler_zero : ofEuler (0 : Vec3 ℝ) = identity := by
  have sine : (Scalar.sin 0 : ℝ) = 0 := Real.sin_zero
  have cosine : (Scalar.cos 0 : ℝ) = 1 := Real.cos_zero
  rw [ofEuler_eq]
  ext <;> simp only [Vec3.zero_eq, mul_eq, apply, transpose, Vec3.dot, aboutX, aboutY, aboutZ, identity, sine,
    cosine] <;> ring

def toMatrix (m : Mat3 ℝ) : Matrix (Fin 3) (Fin 3) ℝ :=
  !![m.r0.x, m.r0.y, m.r0.z; m.r1.x, m.r1.y, m.r1.z; m.r2.x, m.r2.y, m.r2.z]

/-- A turn that keeps lengths, and that turns nothing inside out. -/
def IsRotation (m : Mat3 ℝ) : Prop := m.toMatrix ∈ Matrix.specialOrthogonalGroup (Fin 3) ℝ

theorem toMatrix_mul (a b : Mat3 ℝ) : (a * b).toMatrix = a.toMatrix * b.toMatrix := by
  ext i j
  fin_cases i <;> fin_cases j <;>
    simp [toMatrix, mul_eq, apply, transpose, Vec3.dot, Matrix.mul_apply, Fin.sum_univ_three] <;> ring

theorem toMatrix_transpose (m : Mat3 ℝ) : m.transpose.toMatrix = m.toMatrix.transpose := by
  ext i j
  fin_cases i <;> fin_cases j <;> rfl

theorem toMatrix_identity : (identity : Mat3 ℝ).toMatrix = 1 := by
  ext i j
  fin_cases i <;> fin_cases j <;> simp [toMatrix, identity]

theorem toMatrix_injective : Function.Injective toMatrix := by
  intro a b same
  have entry (i j : Fin 3) : a.toMatrix i j = b.toMatrix i j := by rw [same]
  ext
  · exact entry 0 0
  · exact entry 0 1
  · exact entry 0 2
  · exact entry 1 0
  · exact entry 1 1
  · exact entry 1 2
  · exact entry 2 0
  · exact entry 2 1
  · exact entry 2 2

theorem isRotation_iff {m : Mat3 ℝ} : m.IsRotation ↔ m * m.transpose = identity ∧ m.toMatrix.det = 1 := by
  rw [IsRotation, Matrix.mem_specialOrthogonalGroup_iff, Matrix.mem_orthogonalGroup_iff, ← toMatrix_transpose,
    ← toMatrix_mul, ← toMatrix_identity, toMatrix_injective.eq_iff]

theorem isRotation_mul {a b : Mat3 ℝ} (first : a.IsRotation) (second : b.IsRotation) : (a * b).IsRotation := by
  rw [IsRotation, toMatrix_mul]
  exact mul_mem first second

theorem transpose_mul_self {m : Mat3 ℝ} (rotation : m.IsRotation) : m.transpose * m = identity := by
  have member := (Matrix.mem_specialOrthogonalGroup_iff.mp rotation).1
  rw [Matrix.mem_orthogonalGroup_iff', ← toMatrix_transpose, ← toMatrix_mul, ← toMatrix_identity] at member
  exact toMatrix_injective member

theorem norm_apply {m : Mat3 ℝ} (rotation : m.IsRotation) (v : Vec3 ℝ) : (m.apply v).norm = v.norm := by
  rw [Vec3.norm, Vec3.norm, dot_apply, ← mul_apply, transpose_mul_self rotation, identity_apply]

theorem isRotation_identity : (identity : Mat3 ℝ).IsRotation := by
  rw [IsRotation, toMatrix_identity]
  exact one_mem _

theorem isRotation_transpose {m : Mat3 ℝ} (rotation : m.IsRotation) : m.transpose.IsRotation := by
  refine isRotation_iff.mpr ⟨transpose_mul_self rotation, ?_⟩
  rw [toMatrix_transpose, Matrix.det_transpose]
  exact (isRotation_iff.mp rotation).2

theorem isRotation_aboutX (a : ℝ) : (aboutX a).IsRotation := by
  rw [isRotation_iff, Matrix.det_fin_three]
  constructor
  · ext <;> simp only [aboutX, mul_eq, transpose, apply, Vec3.dot, identity]
    case r1.y => linear_combination sin_cos_unit a
    case r2.z => linear_combination sin_cos_unit a
    all_goals ring
  · simp only [toMatrix, aboutX, Matrix.of_apply, Matrix.cons_val]
    linear_combination sin_cos_unit a

theorem isRotation_aboutY (a : ℝ) : (aboutY a).IsRotation := by
  rw [isRotation_iff, Matrix.det_fin_three]
  constructor
  · ext <;> simp only [aboutY, mul_eq, transpose, apply, Vec3.dot, identity]
    case r0.x => linear_combination sin_cos_unit a
    case r2.z => linear_combination sin_cos_unit a
    all_goals ring
  · simp only [toMatrix, aboutY, Matrix.of_apply, Matrix.cons_val]
    linear_combination sin_cos_unit a

theorem isRotation_aboutZ (a : ℝ) : (aboutZ a).IsRotation := by
  rw [isRotation_iff, Matrix.det_fin_three]
  constructor
  · ext <;> simp only [aboutZ, mul_eq, transpose, apply, Vec3.dot, identity]
    case r0.x => linear_combination sin_cos_unit a
    case r1.y => linear_combination sin_cos_unit a
    all_goals ring
  · simp only [toMatrix, aboutZ, Matrix.of_apply, Matrix.cons_val]
    linear_combination sin_cos_unit a

theorem isRotation_ofEuler (angles : Vec3 ℝ) : (ofEuler angles).IsRotation := by
  rw [ofEuler_eq]
  exact isRotation_mul (isRotation_mul (isRotation_aboutZ _) (isRotation_aboutY _)) (isRotation_aboutX _)

end Mat3

namespace Mat4

def IsRigid (m : Mat4 ℝ) : Prop := ∃ turn shift, Mat3.IsRotation turn ∧ m = ofParts turn shift

theorem isRigid_mul {a b : Mat4 ℝ} (first : a.IsRigid) (second : b.IsRigid) : (a * b).IsRigid := by
  obtain ⟨turn, shift, rotation, rfl⟩ := first
  obtain ⟨other, away, also, rfl⟩ := second
  exact ⟨turn * other, turn.apply away + shift, Mat3.isRotation_mul rotation also, ofParts_mul turn other shift away⟩

theorem exists_back {m : Mat4 ℝ} (rigid : m.IsRigid) : ∃ back : Mat4 ℝ, back.IsRigid ∧ back * m = identity := by
  obtain ⟨turn, shift, rotation, rfl⟩ := rigid
  refine ⟨ofParts turn.transpose (-turn.transpose.apply shift), ⟨_, _, Mat3.isRotation_transpose rotation, rfl⟩, ?_⟩
  rw [ofParts_mul, Mat3.transpose_mul_self rotation, identity]
  congr 1
  ext <;> simp only [Vec3.add_eq, Vec3.neg_eq, Vec3.zero_eq] <;> ring

theorem mul_apply {b : Mat4 ℝ} (rigid : b.IsRigid) (a : Mat4 ℝ) (p : Vec3 ℝ) :
    (a * b).apply p = a.apply (b.apply p) := by
  obtain ⟨turn, shift, -, rfl⟩ := rigid
  exact mul_ofParts_apply a turn shift p

theorem isRigid_translation (t : Vec3 ℝ) : (translation t).IsRigid := ⟨.identity, t, Mat3.isRotation_identity, rfl⟩

theorem isRigid_iff {m : Mat4 ℝ} : m.IsRigid ↔ m.r3 = ⟨0, 0, 0, 1⟩ ∧ m.turn.IsRotation := by
  constructor
  · rintro ⟨turn, shift, rotation, rfl⟩
    exact ⟨rfl, rotation⟩
  · rintro ⟨last, rotation⟩
    refine ⟨m.turn, m.shift, rotation, ?_⟩
    obtain ⟨r0, r1, r2, r3⟩ := m
    cases last
    rfl

theorem distance_apply {m : Mat4 ℝ} (rigid : m.IsRigid) (p q : Vec3 ℝ) :
    Vec3.distance (m.apply p) (m.apply q) = Vec3.distance p q := by
  obtain ⟨turn, shift, rotation, rfl⟩ := rigid
  rw [Vec3.distance, ofParts_apply_sub, Mat3.norm_apply rotation, Vec3.distance]

end Mat4

end Arbor
