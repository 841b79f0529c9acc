import Arbor.Space.Vec3

namespace Arbor

structure Mat3 (α : Type) where
  r0 : Vec3 α
  r1 : Vec3 α
  r2 : Vec3 α
  deriving DecidableEq, Repr

namespace Mat3

variable {α : Type}

def rows (m : Mat3 α) : List (Vec3 α) := [m.r0, m.r1, m.r2]

def transpose (m : Mat3 α) : Mat3 α :=
  ⟨⟨m.r0.x, m.r1.x, m.r2.x⟩, ⟨m.r0.y, m.r1.y, m.r2.y⟩, ⟨m.r0.z, m.r1.z, m.r2.z⟩⟩

variable [Scalar α]

def identity : Mat3 α := ⟨⟨1, 0, 0⟩, ⟨0, 1, 0⟩, ⟨0, 0, 1⟩⟩

def apply (m : Mat3 α) (v : Vec3 α) : Vec3 α := ⟨m.r0.dot v, m.r1.dot v, m.r2.dot v⟩

instance : Mul (Mat3 α) := ⟨fun a b =>
  let c := b.transpose
  ⟨c.apply a.r0, c.apply a.r1, c.apply a.r2⟩⟩

def aboutX (a : α) : Mat3 α :=
  let c := Scalar.cos a
  let s := Scalar.sin a
  ⟨⟨1, 0, 0⟩, ⟨0, c, -s⟩, ⟨0, s, c⟩⟩

def aboutY (a : α) : Mat3 α :=
  let c := Scalar.cos a
  let s := Scalar.sin a
  ⟨⟨c, 0, s⟩, ⟨0, 1, 0⟩, ⟨-s, 0, c⟩⟩

def aboutZ (a : α) : Mat3 α :=
  let c := Scalar.cos a
  let s := Scalar.sin a
  ⟨⟨c, -s, 0⟩, ⟨s, c, 0⟩, ⟨0, 0, 1⟩⟩

end Mat3

end Arbor
