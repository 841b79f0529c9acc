import Arbor.Mesh.Chunk

namespace Arbor

namespace Chunk

variable {α : Type}

def sortedNames (names : List Text) : List Text := names.mergeSort Text.le

def sameNames (a b : List Text) : Bool := a.all b.contains && b.all a.contains

def checkColumn (schema : Schema) (first : Chunk α) (k : Nat) (c : Chunk α)
    (entry : Text × Column α) : Except (Fault α) Unit := do
  let (name, column) := entry
  if column.items.length ≠ c.vertexCount then
    throw (.mismatch (.length name k column.items.length c.vertexCount))
  let some dtype := Table.get? name schema | throw (.noAttribute name)
  if column.dtype ≠ dtype then throw (.mismatch (.dtype name k column.dtype dtype))
  let some reference := first.column? name | throw (.noAttribute name)
  if column.itemShape ≠ reference.itemShape then throw (.mismatch (.itemShape name k column.itemShape))

/-- What is wrong with chunk `k`. -/
def check (schema : Schema) (first : Chunk α) (k : Nat) (c : Chunk α) : Except (Fault α) Unit := do
  if !sameNames c.attributes.keys (Table.keys schema) then
    throw (.mismatch (.names k (sortedNames c.attributes.keys) (sortedNames (Table.keys schema))))
  if c.normals.length ≠ c.vertexCount then
    throw (.mismatch (.normals k c.normals.length c.vertexCount))
  c.attributes.forM (checkColumn schema first k c)

/-- What is wrong with the first chunk that does not fit, counted from `k`. -/
def checkAll (schema : Schema) (first : Chunk α) : Nat → List (Chunk α) → Except (Fault α) Unit
  | _, [] => .ok ()
  | k, c :: rest => do
      check schema first k c
      checkAll schema first (k + 1) rest

/-- The index buffers of chunks, moved up behind `offset` vertices and those of the chunks before. -/
def shiftedFaces : Nat → List (Chunk α) → List Faces
  | _, [] => []
  | offset, c :: rest => c.faces.shifted offset :: shiftedFaces (offset + c.vertexCount) rest

def mergedColumn (chunks : List (Chunk α)) (first : Chunk α) (entry : Text × Dtype) :
    Except (Fault α) (Text × Column α) := do
  let some reference := first.column? entry.1 | throw (.noAttribute entry.1)
  let columns ← chunks.mapM fun c =>
    match c.column? entry.1 with
    | some column => .ok column
    | none => .error (.noAttribute entry.1)
  return (entry.1, ⟨entry.2, reference.itemShape, columns.flatMap Column.items⟩)

end Chunk

namespace Mesh

variable {α : Type}

def merge (chunks : List (Chunk α)) (schema : Option Schema) : Except (Fault α) (Mesh α) :=
  match chunks with
  | [] => .ok (blank (schema.getD []))
  | first :: _ => do
      let schema := schema.getD first.schema
      Chunk.checkAll schema first 0 chunks
      let some faces := Faces.stack? (Chunk.shiftedFaces 0 chunks) | throw .shape
      return {
        positions := chunks.flatMap Chunk.positions
        normals := chunks.flatMap Chunk.normals
        faces := faces
        attributes := ← schema.mapM (Chunk.mergedColumn chunks first) }

end Mesh

end Arbor
