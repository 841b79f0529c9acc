import Arbor.Space.Mat3

namespace Arbor

structure Quaternion (α : Type) where
  x : α
  y : α
  z : α
  w : α
  deriving DecidableEq, Repr

namespace Quaternion

variable {α : Type} [Scalar α]

def half (a : α) : α := a / Scalar.ofInt 2

def aboutX (a : α) : Quaternion α := ⟨Scalar.sin (half a), 0, 0, Scalar.cos (half a)⟩

def aboutY (a : α) : Quaternion α := ⟨0, Scalar.sin (half a), 0, Scalar.cos (half a)⟩

def aboutZ (a : α) : Quaternion α := ⟨0, 0, Scalar.sin (half a), Scalar.cos (half a)⟩

instance : Mul (Quaternion α) := ⟨fun p q =>
  ⟨p.w * q.x + q.w * p.x + (p.y * q.z - p.z * q.y),
   p.w * q.y + q.w * p.y + (p.z * q.x - p.x * q.z),
   p.w * q.z + q.w * p.z + (p.x * q.y - p.y * q.x),
   p.w * q.w - p.x * q.x - p.y * q.y - p.z * q.z⟩⟩

def toMat3 (q : Quaternion α) : Mat3 α :=
  let xx := q.x * q.x
  let yy := q.y * q.y
  let zz := q.z * q.z
  let ww := q.w * q.w
  let twice (a : α) : α := Scalar.ofInt 2 * a
  ⟨⟨xx - yy - zz + ww, twice (q.x * q.y - q.z * q.w), twice (q.x * q.z + q.y * q.w)⟩,
   ⟨twice (q.x * q.y + q.z * q.w), -xx + yy - zz + ww, twice (q.y * q.z - q.x * q.w)⟩,
   ⟨twice (q.x * q.z - q.y * q.w), twice (q.y * q.z + q.x * q.w), -xx - yy + zz + ww⟩⟩

def ofEuler (angles : Vec3 α) : Quaternion α := aboutZ angles.z * (aboutY angles.y * aboutX angles.x)

end Quaternion

/-- Turns about the three fixed axes, the first axis first. An angle that is not finite has no sine, and then no entry
is defined. -/
def Mat3.ofEuler {α : Type} [Scalar α] (angles : Vec3 α) : Mat3 α := (Quaternion.ofEuler angles).toMat3

end Arbor
