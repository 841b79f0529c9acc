import Arbor.Mesh.Chunk

namespace Arbor

/-- Every cell of `cells` is its number of corners followed by the corners. -/
structure Surface (α : Type) where
  points : List (Vec3 α)
  cells : List Nat
  data : Table Text (Column α)

namespace Surface

variable {α : Type}

def cell (t : Triangle UInt32) : List Nat := 3 :: t.toList.map UInt32.toNat

def item (v : Vec3 α) : Item α := .row (v.toList.map .real)

end Surface

/-- The surface of a mesh, at its rest positions or at others, which are held in single precision. -/
def Mesh.surface {α : Type} [Scalar α] (m : Mesh α) (positions : Option (List (Vec3 α))) : Surface α :=
  { points := (positions.map (·.map Vec3.single)).getD m.positions
    cells := m.faces.toTriangles.flatMap Surface.cell
    data := Table.ofList (("Normals", ⟨.single, [3], m.normals.map Surface.item⟩) :: m.attributes) }

end Arbor
