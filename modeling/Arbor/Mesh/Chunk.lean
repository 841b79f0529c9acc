import Arbor.Fault
import Arbor.Mesh.Faces
import Arbor.Space.Vec3

namespace Arbor

structure Chunk (α : Type) where
  positions : List (Vec3 α)
  normals : List (Vec3 α)
  faces : Faces
  attributes : Table Text (Column α)
  deriving Repr

structure Mesh (α : Type) where
  positions : List (Vec3 α)
  normals : List (Vec3 α)
  faces : Faces
  attributes : Table Text (Column α)
  deriving Repr

namespace Chunk

variable {α : Type}

def vertexCount (c : Chunk α) : Nat := c.positions.length

def withAttribute (c : Chunk α) (name : Text) (column : Column α) : Chunk α :=
  { c with attributes := Table.put name column c.attributes }

def column? (c : Chunk α) (name : Text) : Option (Column α) := Table.get? name c.attributes

def schema (c : Chunk α) : Schema := c.attributes.map fun entry => (entry.1, entry.2.dtype)

end Chunk

namespace Mesh

variable {α : Type}

def toChunk (m : Mesh α) : Chunk α := ⟨m.positions, m.normals, m.faces, m.attributes⟩

def vertexCount (m : Mesh α) : Nat := m.positions.length

def triangleCount (m : Mesh α) : Nat := m.faces.rowCount

def isEmpty (m : Mesh α) : Bool := m.positions.isEmpty

def column? (m : Mesh α) (name : Text) : Option (Column α) := Table.get? name m.attributes

def column (m : Mesh α) (name : Text) : Except (Fault α) (Column α) :=
  match m.column? name with
  | some column => .ok column
  | none => .error (.noAttribute name)

def blank (schema : Schema) : Mesh α :=
  { positions := []
    normals := []
    faces := .triangles []
    attributes := schema.map fun entry => (entry.1, ⟨entry.2, [], []⟩) }

def movedPositions [Scalar α] (m : Mesh α) (shift : Vec3 α) : List (Vec3 α) :=
  m.positions.map fun p => (p + shift.single).single

def bounds [Scalar α] (m : Mesh α) : Vec3 α × Vec3 α :=
  (Vec3.least m.positions, Vec3.greatest m.positions)

end Mesh

end Arbor
