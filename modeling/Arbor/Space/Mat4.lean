import Arbor.Space.Mat3

namespace Arbor

structure Vec4 (α : Type) where
  x : α
  y : α
  z : α
  w : α
  deriving DecidableEq, Repr

structure Mat4 (α : Type) where
  r0 : Vec4 α
  r1 : Vec4 α
  r2 : Vec4 α
  r3 : Vec4 α
  deriving DecidableEq, Repr

def Vec4.toList {α : Type} (v : Vec4 α) : List α := [v.x, v.y, v.z, v.w]

def Vec4.head {α : Type} (v : Vec4 α) : Vec3 α := ⟨v.x, v.y, v.z⟩

def Vec4.dot {α : Type} [Scalar α] (a b : Vec4 α) : α :=
  a.x * b.x + a.y * b.y + a.z * b.z + a.w * b.w

namespace Mat4

variable {α : Type}

def upper (m : Mat4 α) : List (Vec4 α) := [m.r0, m.r1, m.r2]

def turn (m : Mat4 α) : Mat3 α := ⟨m.r0.head, m.r1.head, m.r2.head⟩

def shift (m : Mat4 α) : Vec3 α := ⟨m.r0.w, m.r1.w, m.r2.w⟩

def transpose (m : Mat4 α) : Mat4 α :=
  ⟨⟨m.r0.x, m.r1.x, m.r2.x, m.r3.x⟩, ⟨m.r0.y, m.r1.y, m.r2.y, m.r3.y⟩,
   ⟨m.r0.z, m.r1.z, m.r2.z, m.r3.z⟩, ⟨m.r0.w, m.r1.w, m.r2.w, m.r3.w⟩⟩

variable [Scalar α]

def zero : Mat4 α := ⟨⟨0, 0, 0, 0⟩, ⟨0, 0, 0, 0⟩, ⟨0, 0, 0, 0⟩, ⟨0, 0, 0, 0⟩⟩

/-- Turn by `m`, then shift by `t`. -/
def ofParts (m : Mat3 α) (t : Vec3 α) : Mat4 α :=
  ⟨⟨m.r0.x, m.r0.y, m.r0.z, t.x⟩, ⟨m.r1.x, m.r1.y, m.r1.z, t.y⟩,
   ⟨m.r2.x, m.r2.y, m.r2.z, t.z⟩, ⟨0, 0, 0, 1⟩⟩

def identity : Mat4 α := ofParts Mat3.identity 0

def translation (t : Vec3 α) : Mat4 α := ofParts Mat3.identity t

def mulRow (r : Vec4 α) (columns : Mat4 α) : Vec4 α :=
  ⟨r.dot columns.r0, r.dot columns.r1, r.dot columns.r2, r.dot columns.r3⟩

instance : Mul (Mat4 α) := ⟨fun a b =>
  let columns := b.transpose
  ⟨mulRow a.r0 columns, mulRow a.r1 columns, mulRow a.r2 columns, mulRow a.r3 columns⟩⟩

def apply (m : Mat4 α) (p : Vec3 α) : Vec3 α := m.turn.apply p + m.shift

end Mat4

end Arbor
