import Arbor.Proofs.Mesh.Fitting

namespace Arbor

namespace Chunk

variable {α : Type}

structure Conforms (schema : Schema) (c : Chunk α) : Prop where
  names : ∀ name, name ∈ c.attributes.keys ↔ name ∈ Table.keys schema
  normals : c.normals.length = c.vertexCount
  columns : ∀ entry ∈ c.attributes, entry.2.items.length = c.vertexCount ∧
    Table.get? entry.1 schema = some entry.2.dtype ∧ entry.2.itemShape = []

variable {schema : Schema}

@[simp] theorem items_withAttribute_self (c : Chunk α) (name : Text) (column : Column α) :
    (c.withAttribute name column).items name = column.items := by
  simp [items, column?, withAttribute]

theorem items_withAttribute_of_ne (c : Chunk α) {name other : Text} (different : name ≠ other)
    (column : Column α) : (c.withAttribute name column).items other = c.items other := by
  simp only [items, column?, withAttribute, Table.get?_put_of_ne different]

theorem Conforms.withAttribute {c : Chunk α} (conforms : c.Conforms schema) (name : Text)
    (column : Column α) (fresh : name ∉ Table.keys schema) (shape : column.itemShape = [])
    (length : column.items.length = c.vertexCount) :
    (c.withAttribute name column).Conforms (schema ++ [(name, column.dtype)]) where
  names := by
    intro other
    have keys : Table.keys (schema ++ [(name, column.dtype)]) = Table.keys schema ++ [name] := by
      simp [Table.keys]
    rw [keys, List.mem_append, List.mem_singleton, Chunk.withAttribute, Table.mem_keys_put, conforms.names, Or.comm]
  normals := conforms.normals
  columns := by
    intro entry member
    rw [Table.get?_append]
    rcases Table.mem_put member with rfl | old
    · refine ⟨length, ?_, shape⟩
      rw [Table.get?_eq_none_of_not_mem_keys fresh]
      simp [Table.get?]
    · obtain ⟨lengthOld, dtype, shapeOld⟩ := conforms.columns entry old
      refine ⟨lengthOld, ?_, shapeOld⟩
      rw [dtype]
      rfl

theorem Conforms.fits {c first : Chunk α} (conforms : c.Conforms schema) (reference : first.Conforms schema) :
    c.Fits schema first where
  names := conforms.names
  normals := conforms.normals
  columns := by
    rintro ⟨name, column⟩ member
    obtain ⟨length, dtype, shape⟩ : column.items.length = c.vertexCount ∧
        Table.get? name schema = some column.dtype ∧ column.itemShape = [] :=
      conforms.columns _ member
    have known : name ∈ Table.keys schema := List.mem_map.mpr ⟨_, Table.mem_of_get? dtype, rfl⟩
    obtain ⟨other, found⟩ := Table.exists_get?_of_mem_keys ((reference.names name).mpr known)
    have same : other.itemShape = [] := (reference.columns _ (Table.mem_of_get? found)).2.2
    exact ⟨length, dtype, other, found, shape.trans same.symm⟩

theorem shape_of_conforms {c : Chunk α} (conforms : c.Conforms schema) (name : Text) : c.shape name = [] := by
  rw [shape]
  cases found : c.column? name with
  | none => rfl
  | some column => exact (conforms.columns _ (Table.mem_of_get? found)).2.2

end Chunk

namespace Mesh

variable {α : Type} {schema : Schema}

theorem merge_of_conforms {chunks : List (Chunk α)} (each : ∀ c ∈ chunks, c.Conforms schema) :
    merge chunks (some schema) =
      match Faces.stack? (Chunk.shiftedFaces 0 chunks) with
      | none => .error .shape
      | some faces => .ok {
          positions := chunks.flatMap Chunk.positions
          normals := chunks.flatMap Chunk.normals
          faces := faces
          attributes := schema.map fun entry =>
            (entry.1, ⟨entry.2, [], chunks.flatMap fun c => c.items entry.1⟩) } := by
  cases chunks with
  | nil => rfl
  | cons first rest =>
      have reference := each first List.mem_cons_self
      have fits : ∀ c ∈ first :: rest, c.Fits ((some schema).getD first.schema) first :=
        fun c member => (each c member).fits reference
      rw [merge_of_fits fits]
      cases Faces.stack? (Chunk.shiftedFaces 0 (first :: rest)) with
      | none => rfl
      | some faces => simp only [gathered, Chunk.joined, Chunk.shape_of_conforms reference, Option.getD_some]

theorem positions_keys_of_merge {chunks : List (Chunk α)} (each : ∀ c ∈ chunks, c.Conforms schema) {m : Mesh α}
    (merged : merge chunks (some schema) = .ok m) :
    m.positions = chunks.flatMap Chunk.positions ∧ Table.keys m.attributes = Table.keys schema := by
  rw [merge_of_conforms each] at merged
  cases stacked : Faces.stack? (Chunk.shiftedFaces 0 chunks) with
  | none =>
      rw [stacked] at merged
      cases merged
  | some faces =>
      rw [stacked] at merged
      cases merged
      refine ⟨rfl, ?_⟩
      rw [Table.keys, List.map_map]
      rfl

end Mesh

end Arbor
