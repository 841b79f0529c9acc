import Arbor.Mesh.Faces
import Arbor.Proofs.Space.Rotation

/-!
# Volumes

The product of two vectors, which stands on both of them, and of three, which is the volume between them. Its sign
says on which side of a triangle a point lies. Rotations keep all of these.
-/

namespace Arbor

namespace Vec3

theorem dot_comm (v w : Vec3 ℝ) : v.dot w = w.dot v := by
  simp only [dot]
  ring

theorem dot_self_nonneg (v : Vec3 ℝ) : 0 ≤ v.dot v :=
  add_nonneg (add_nonneg (mul_self_nonneg v.x) (mul_self_nonneg v.y)) (mul_self_nonneg v.z)

theorem norm_mul_self (v : Vec3 ℝ) : v.norm * v.norm = v.dot v := Real.mul_self_sqrt v.dot_self_nonneg

theorem norm_nonneg (v : Vec3 ℝ) : 0 ≤ v.norm := Real.sqrt_nonneg _

theorem norm_eq_of_dot {v : Vec3 ℝ} {k : ℝ} (positive : 0 ≤ k) (square : v.dot v = k * k) : v.norm = k := by
  rw [norm, square]
  exact Real.sqrt_mul_self positive

theorem dot_scale (k : ℝ) (v w : Vec3 ℝ) : v.dot (w.scale k) = k * v.dot w := by
  simp only [dot, scale]
  ring

theorem norm_scale (k : ℝ) (v : Vec3 ℝ) : (v.scale k).norm = |k| * v.norm := by
  refine norm_eq_of_dot (mul_nonneg (abs_nonneg k) v.norm_nonneg) ?_
  calc
    (v.scale k).dot (v.scale k) = k * k * v.dot v := by
      simp only [dot, scale]
      ring
    _ = |k| * |k| * (v.norm * v.norm) := by rw [abs_mul_abs_self, norm_mul_self]
    _ = |k| * v.norm * (|k| * v.norm) := by ring

noncomputable def cross (v w : Vec3 ℝ) : Vec3 ℝ :=
  ⟨v.y * w.z - v.z * w.y, v.z * w.x - v.x * w.z, v.x * w.y - v.y * w.x⟩

noncomputable def volume (u v w : Vec3 ℝ) : ℝ := u.dot (v.cross w)

theorem volume_scale (k : ℝ) (u v w : Vec3 ℝ) :
    volume (u.scale k) (v.scale k) (w.scale k) = k * k * k * volume u v w := by
  simp only [volume, cross, dot, scale]
  ring

theorem zero_dot (v : Vec3 ℝ) : (0 : Vec3 ℝ).dot v = 0 := by
  simp only [dot, zero_eq]
  ring

theorem eq_of_dot {v w : Vec3 ℝ} (same : ∀ u : Vec3 ℝ, u.dot v = u.dot w) : v = w := by
  ext
  · simpa [dot] using same ⟨1, 0, 0⟩
  · simpa [dot] using same ⟨0, 1, 0⟩
  · simpa [dot] using same ⟨0, 0, 1⟩

end Vec3

namespace Mat3

open Vec3

theorem dot_apply_apply {m : Mat3 ℝ} (rotation : m.IsRotation) (v w : Vec3 ℝ) :
    (m.apply v).dot (m.apply w) = v.dot w := by
  rw [dot_apply, ← mul_apply, transpose_mul_self rotation, identity_apply]

theorem volume_apply (m : Mat3 ℝ) (u v w : Vec3 ℝ) :
    volume (m.apply u) (m.apply v) (m.apply w) = m.toMatrix.det * volume u v w := by
  rw [Matrix.det_fin_three]
  simp only [volume, cross, dot, apply, toMatrix, Matrix.of_apply, Matrix.cons_val]
  ring

theorem cross_apply {m : Mat3 ℝ} (rotation : m.IsRotation) (v w : Vec3 ℝ) :
    (m.apply v).cross (m.apply w) = m.apply (v.cross w) := by
  obtain ⟨whole, one⟩ := isRotation_iff.mp rotation
  refine eq_of_dot fun u => ?_
  -- Each vector is what the rotation makes of another one.
  have back : m.apply (m.transpose.apply u) = u := by rw [← mul_apply, whole, identity_apply]
  calc
    u.dot ((m.apply v).cross (m.apply w)) =
        volume (m.apply (m.transpose.apply u)) (m.apply v) (m.apply w) := by rw [back, volume]
    _ = volume (m.transpose.apply u) v w := by rw [volume_apply, one, one_mul]
    _ = u.dot (m.apply (v.cross w)) := by rw [volume, ← dot_apply_apply rotation, back]

end Mat3

namespace Triangle

structure Joins {ι : Type} (t : Triangle Nat) (items : List ι) (corners : Triangle ι) : Prop where
  first : items[t.a]? = some corners.a
  second : items[t.b]? = some corners.b
  third : items[t.c]? = some corners.c

theorem Joins.map {ι κ : Type} {t : Triangle Nat} {items : List ι} {corners : Triangle ι} (f : ι → κ)
    (joins : t.Joins items corners) : t.Joins (items.map f) (corners.map f) where
  first := by rw [List.getElem?_map, joins.first, Option.map_some, Triangle.map]
  second := by rw [List.getElem?_map, joins.second, Option.map_some, Triangle.map]
  third := by rw [List.getElem?_map, joins.third, Option.map_some, Triangle.map]

theorem Joins.unique {ι : Type} {t : Triangle Nat} {items : List ι} {corners others : Triangle ι}
    (joins : t.Joins items corners) (also : t.Joins items others) : corners = others := by
  cases corners
  cases others
  rw [mk.injEq]
  exact ⟨Option.some.inj (joins.first.symm.trans also.first), Option.some.inj (joins.second.symm.trans also.second),
    Option.some.inj (joins.third.symm.trans also.third)⟩

/-- The vector that stands on a triangle, on the side from which its corners go round to the left. It is as long as
twice the area. -/
noncomputable def facing (t : Triangle (Vec3 ℝ)) : Vec3 ℝ := (t.b - t.a).cross (t.c - t.a)

noncomputable def volumeFrom (t : Triangle (Vec3 ℝ)) (p : Vec3 ℝ) : ℝ :=
  Vec3.volume (t.a - p) (t.b - p) (t.c - p)

theorem volumeFrom_eq (t : Triangle (Vec3 ℝ)) (p : Vec3 ℝ) : t.volumeFrom p = (t.a - p).dot t.facing := by
  simp only [volumeFrom, facing, Vec3.volume, Vec3.cross, Vec3.dot, Vec3.sub_eq]
  ring

theorem facing_of_eq {t : Triangle (Vec3 ℝ)} (flat : t.a = t.b ∨ t.b = t.c ∨ t.c = t.a) : t.facing = 0 := by
  rcases flat with same | same | same
  all_goals
    ext <;> simp only [facing, same, Vec3.cross, Vec3.sub_eq, Vec3.zero_eq] <;> ring

/-- A triangle between points that is seen from the side to which the normal of each of its corners points. -/
def Outward (t : Triangle Nat) (positions normals : List (Vec3 ℝ)) : Prop :=
  ∃ corners ways : Triangle (Vec3 ℝ), t.Joins positions corners ∧ t.Joins normals ways ∧
    ∀ v ∈ ways.toList, 0 < corners.facing.dot v

theorem outward_of_corners {t : Triangle Nat} {positions normals : List (Vec3 ℝ)} {p q r u v w : Vec3 ℝ}
    (joins : t.Joins positions ⟨p, q, r⟩) (points : t.Joins normals ⟨u, v, w⟩)
    (first : 0 < (facing ⟨p, q, r⟩).dot u) (second : 0 < (facing ⟨p, q, r⟩).dot v)
    (third : 0 < (facing ⟨p, q, r⟩).dot w) : t.Outward positions normals := by
  refine ⟨_, _, joins, points, ?_⟩
  simpa [toList] using ⟨first, second, third⟩

end Triangle

end Arbor
