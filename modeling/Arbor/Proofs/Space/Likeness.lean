import Arbor.Proofs.Space.Exact

/-!
# Likeness

Two trees are alike when one is the other one shifted, or enlarged about a point. Both changes take whatever leads from
point to point to as much the same way, times one factor.
-/

namespace Arbor

/-- What becomes of the points of a tree, of their heights, of the lengths of its parts, and of the ways from one of
its points to another. -/
structure Likeness (α : Type) where
  point : Vec3 α → Vec3 α
  height : α → α
  length : α → α
  way : Vec3 α → Vec3 α

namespace Likeness

/-- The likeness of a tree that stands somewhere else. -/
def shift {α : Type} [Scalar α] (t : Vec3 α) : Likeness α where
  point x := x + t
  height y := y + t.y
  length r := r
  way v := v

/-- The likeness of a tree that is so many times as large, seen from where it stands. -/
def enlargement {α : Type} [Scalar α] (center : Vec3 α) (k : α) : Likeness α where
  point x := center + (x - center).scale k
  height y := center.y + k * (y - center.y)
  length r := k * r
  way v := v.scale k

/-- Whatever leads from point to point grows by one factor, the same in all directions. -/
structure Similar (l : Likeness ℝ) (k : ℝ) : Prop where
  positive : 0 < k
  point : ∀ x v, l.point (x + v) = l.point x + v.scale k
  height : ∀ x, (l.point x).y = l.height x.y
  length : ∀ r, l.length r = k * r
  way : ∀ v, l.way v = v.scale k

theorem similar_shift (t : Vec3 ℝ) : (shift t).Similar 1 where
  positive := one_pos
  point x v := by ext <;> simp only [shift, Vec3.scale, Vec3.add_eq] <;> ring
  height _ := rfl
  length r := (one_mul r).symm
  way v := v.scale_one.symm

theorem similar_enlargement (center : Vec3 ℝ) {k : ℝ} (positive : 0 < k) : (enlargement center k).Similar k where
  positive := positive
  point x v := by ext <;> simp only [enlargement, Vec3.scale, Vec3.add_eq, Vec3.sub_eq] <;> ring
  height _ := rfl
  length _ := rfl
  way _ := rfl

theorem enlargement_center (center : Vec3 ℝ) (k : ℝ) : (enlargement center k).point center = center := by
  ext <;> simp only [enlargement, Vec3.scale, Vec3.add_eq, Vec3.sub_eq] <;> ring

namespace Similar

variable {l : Likeness ℝ} {k : ℝ}

theorem sub (similar : l.Similar k) (x y : Vec3 ℝ) : l.point x - l.point y = l.way (x - y) := by
  have apart : l.point x = l.point y + (x - y).scale k := by rw [← similar.point, Vec3.add_sub_cancel]
  rw [apart, Vec3.add_sub_cancel_left, similar.way]

theorem turned (similar : l.Similar k) (m : Mat3 ℝ) (v x : Vec3 ℝ) :
    m.apply (v.scale k) + l.point x = l.point (m.apply v + x) := by
  have swap (v w : Vec3 ℝ) : v + w = w + v := by ext <;> simp only [Vec3.add_eq] <;> ring
  rw [swap (m.apply v), similar.point, Mat3.apply_scale, swap]

theorem length_zero (similar : l.Similar k) : l.length 0 = 0 := by rw [similar.length, mul_zero]

theorem way_zero (similar : l.Similar k) : l.way 0 = 0 := by
  rw [similar.way]
  ext <;> exact mul_zero k

theorem length_mul (similar : l.Similar k) (r c : ℝ) : l.length r * c = l.length (r * c) := by
  rw [similar.length, similar.length, mul_assoc]

theorem scale_length (similar : l.Similar k) (v : Vec3 ℝ) (r : ℝ) : v.scale (l.length r) = (v.scale r).scale k := by
  rw [similar.length]
  ext <;> exact mul_assoc k r _

end Similar

end Likeness

end Arbor
