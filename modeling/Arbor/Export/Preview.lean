import Arbor.Mesh.Chunk

/-!
# Previews

What a picture of a tree shows. Trees grow along the second axis, pictures draw the third one upwards, so
those two change places.
-/

namespace Arbor

structure Limits (α : Type) where
  low : α
  high : α
  deriving DecidableEq, Repr

/-- The limits of the three axes, none for an empty tree, and the direction of view in degrees, as far as
there is one. -/
structure Preview (α : Type) where
  limits : Option (Vec3 (Limits α))
  elevation : Option α
  azimuth : Option α
  deriving Repr

namespace Preview

variable {α : Type} [Scalar α]

def labels : List String := ["X", "Z", "Y (up)"]

def turned (v : Vec3 α) : Vec3 α := ⟨v.x, v.z, v.y⟩

def halfLength (low high : Vec3 α) : α :=
  let size := (high - low).single
  let half := Scalar.single (Scalar.greatest (Scalar.greatest size.x size.y) size.z / Scalar.ofInt 2)
  let least : α := Scalar.ratio 1 1000000
  if half < Scalar.single least then Scalar.single least else half

def around (half low high : α) : Limits α :=
  let center := Scalar.single (Scalar.single (low + high) / Scalar.ofInt 2)
  ⟨Scalar.single (center - half), Scalar.single (center + half)⟩

/-- Limits of one length for all axes, with the points in the middle. -/
def limitsOf (points : List (Vec3 α)) : Vec3 (Limits α) :=
  let low := turned (Vec3.least points)
  let high := turned (Vec3.greatest points)
  let half := halfLength low high
  ⟨around half low.x high.x, around half low.y high.y, around half low.z high.z⟩

end Preview

def Mesh.preview {α : Type} [Scalar α] (m : Mesh α) (positions : Option (List (Vec3 α)))
    (elevation azimuth : Option α) : Preview α :=
  { limits := if m.isEmpty then none else some (Preview.limitsOf (positions.getD m.positions))
    elevation, azimuth }

end Arbor
