import Arbor.Mesh.Merge
import Arbor.Proofs.Outcome

namespace Arbor

namespace Chunk

variable {α : Type}

theorem sameNames_iff {first second : List Text} :
    sameNames first second = true ↔ ∀ name, name ∈ first ↔ name ∈ second := by
  simp only [sameNames, Bool.and_eq_true, List.all_eq_true, List.contains_iff_mem]
  constructor
  · rintro ⟨forth, back⟩ name
    exact ⟨forth name, back name⟩
  · intro same
    exact ⟨fun name => (same name).mp, fun name => (same name).mpr⟩

/-- An attribute of a chunk that goes together with the attribute of the same name in the first chunk. -/
def FitsColumn (schema : Schema) (c first : Chunk α) (entry : Text × Column α) : Prop :=
  entry.2.items.length = c.vertexCount ∧ Table.get? entry.1 schema = some entry.2.dtype ∧
    ∃ reference, first.column? entry.1 = some reference ∧ entry.2.itemShape = reference.itemShape

/-- A chunk that may be merged behind a first one under a schema. -/
structure Fits (schema : Schema) (c first : Chunk α) : Prop where
  names : ∀ name, name ∈ c.attributes.keys ↔ name ∈ Table.keys schema
  normals : c.normals.length = c.vertexCount
  columns : ∀ entry ∈ c.attributes, FitsColumn schema c first entry

def items (c : Chunk α) (name : Text) : List (Item α) := ((c.column? name).map Column.items).getD []

variable {schema : Schema} {first c : Chunk α}

theorem checkColumn_eq_ok_iff {k : Nat} {entry : Text × Column α} :
    checkColumn schema first k c entry = .ok () ↔ FitsColumn schema c first entry := by
  obtain ⟨name, column⟩ := entry
  simp only [checkColumn, FitsColumn]
  by_cases length : column.items.length = c.vertexCount
  · cases Table.get? name schema with
    | none => simp [length]
    | some dtype =>
        by_cases stored : column.dtype = dtype
        · cases first.column? name with
          | none => simp [length, stored]
          | some reference =>
              by_cases shape : column.itemShape = reference.itemShape <;> simp [length, stored, shape]
        · have other : dtype ≠ column.dtype := fun same => stored same.symm
          simp [length, stored, other]
  · simp [length]

theorem check_eq_ok_iff {k : Nat} : check schema first k c = .ok () ↔ c.Fits schema first := by
  have columns : c.attributes.forM (checkColumn schema first k c) = .ok () ↔
      ∀ entry ∈ c.attributes, FitsColumn schema c first entry := by
    rw [Outcome.forM_eq_ok_iff]
    exact forall₂_congr fun entry _ => checkColumn_eq_ok_iff
  by_cases names : sameNames c.attributes.keys (Table.keys schema) = true
  · by_cases normals : c.normals.length = c.vertexCount
    · simp only [check, names, normals, columns, Bool.not_true, Bool.false_eq_true, if_false, ne_eq, not_true_eq_false]
      exact ⟨fun fit => ⟨sameNames_iff.mp names, normals, fit⟩, fun fits => fits.columns⟩
    · have refused : ¬ c.Fits schema first := fun fits => normals fits.normals
      simp [check, names, normals, refused]
  · have refused : ¬ c.Fits schema first := fun fits => names (sameNames_iff.mpr fits.names)
    simp [check, names, refused]

theorem checkAll_eq_ok_iff {chunks : List (Chunk α)} {k : Nat} :
    checkAll schema first k chunks = .ok () ↔ ∀ c ∈ chunks, c.Fits schema first := by
  induction chunks generalizing k with
  | nil => simp [checkAll]
  | cons c rest ih => rw [checkAll, Outcome.check_eq_ok_iff, check_eq_ok_iff, ih, List.forall_mem_cons]

def shape (c : Chunk α) (name : Text) : List Nat := ((c.column? name).map Column.itemShape).getD []

def joined (chunks : List (Chunk α)) (first : Chunk α) (name : Text) (dtype : Dtype) : Column α :=
  ⟨dtype, first.shape name, chunks.flatMap fun c => c.items name⟩

theorem column_of_fits (fits : c.Fits schema first) {name : Text} (member : name ∈ Table.keys schema) :
    ∃ column, c.column? name = some column ∧ FitsColumn schema c first (name, column) := by
  obtain ⟨column, found⟩ := Table.exists_get?_of_mem_keys ((fits.names name).mpr member)
  exact ⟨column, found, fits.columns _ (Table.mem_of_get? found)⟩

theorem mergedColumn_of_fits {chunks : List (Chunk α)} (head : first ∈ chunks) (each : ∀ c ∈ chunks, c.Fits schema first)
    {entry : Text × Dtype} (member : entry ∈ schema) :
    mergedColumn chunks first entry = .ok (entry.1, joined chunks first entry.1 entry.2) := by
  have known : entry.1 ∈ Table.keys schema := List.mem_map.mpr ⟨entry, member, rfl⟩
  obtain ⟨reference, found, -⟩ := column_of_fits (each first head) known
  simp only [mergedColumn, joined, shape, found, Option.map_some, Option.getD_some]
  rw [Outcome.mapM_eq_ok (g := fun c => (c.column? entry.1).getD ⟨entry.2, [], []⟩)]
  · have same : (fun c => ((c.column? entry.1).getD ⟨entry.2, [], []⟩).items) =
        fun c : Chunk α => c.items entry.1 := by
      funext c
      cases present : c.column? entry.1 <;> simp [items, present]
    simp only [Outcome.ok_bind, Outcome.pure_eq, List.flatMap_map, same]
  · intro c inside
    obtain ⟨column, present, -⟩ := column_of_fits (each c inside) known
    simp only [present, Option.getD_some]

end Chunk

namespace Mesh

variable {α : Type} {first : Chunk α} {rest : List (Chunk α)} {schema : Option Schema}

/-- The buffers of chunks one after another, with the attributes of a schema in the item shapes of a first chunk. -/
def gathered (schema : Schema) (first : Chunk α) (chunks : List (Chunk α)) (faces : Faces) : Mesh α :=
  { positions := chunks.flatMap Chunk.positions
    normals := chunks.flatMap Chunk.normals
    faces := faces
    attributes := schema.map fun entry => (entry.1, Chunk.joined chunks first entry.1 entry.2) }

theorem schema_gathered (schema : Schema) (first : Chunk α) (chunks : List (Chunk α)) (faces : Faces) :
    (gathered schema first chunks faces).toChunk.schema = schema := by
  simp only [Chunk.schema, toChunk, gathered, Chunk.joined, List.map_map]
  exact List.map_id _

theorem merge_of_fits (each : ∀ c ∈ first :: rest, c.Fits (schema.getD first.schema) first) :
    merge (first :: rest) schema =
      match Faces.stack? (Chunk.shiftedFaces 0 (first :: rest)) with
      | none => .error .shape
      | some faces => .ok (gathered (schema.getD first.schema) first (first :: rest) faces) := by
  have columns := Outcome.mapM_eq_ok fun entry (member : entry ∈ schema.getD first.schema) =>
    Chunk.mergedColumn_of_fits List.mem_cons_self each member
  simp only [merge, Chunk.checkAll_eq_ok_iff.mpr each, Outcome.ok_bind]
  cases Faces.stack? (Chunk.shiftedFaces 0 (first :: rest)) with
  | none => rfl
  | some faces => simp only [columns, Outcome.ok_bind, Outcome.pure_eq, gathered]

theorem merge_eq_ok_iff {m : Mesh α} :
    merge (first :: rest) schema = .ok m ↔
      (∀ c ∈ first :: rest, c.Fits (schema.getD first.schema) first) ∧
        ∃ faces, Faces.stack? (Chunk.shiftedFaces 0 (first :: rest)) = some faces ∧
          m = gathered (schema.getD first.schema) first (first :: rest) faces := by
  constructor
  · intro merged
    obtain ⟨⟨⟩, checked, -⟩ := Outcome.bind_eq_ok merged
    have each := Chunk.checkAll_eq_ok_iff.mp checked
    rw [merge_of_fits each] at merged
    cases stacked : Faces.stack? (Chunk.shiftedFaces 0 (first :: rest)) with
    | none =>
        rw [stacked] at merged
        cases merged
    | some faces =>
        rw [stacked] at merged
        cases merged
        exact ⟨each, faces, rfl, rfl⟩
  · rintro ⟨each, faces, stacked, rfl⟩
    rw [merge_of_fits each, stacked]

end Mesh

end Arbor
