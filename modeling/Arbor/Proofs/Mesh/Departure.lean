import Arbor.Fault.Message
import Arbor.Proofs.Mesh.Fitting
import Arbor.Proofs.Mesh.Stacking

namespace Arbor

open Text (quoted quotedList tuple)

namespace Chunk

variable {α : Type} {schema : Schema} {first c : Chunk α} {k : Nat}

/-- The ways in which chunk `k` departs from a schema or from a first chunk, each with what is told of it. -/
inductive Departs (schema : Schema) (c first : Chunk α) (k : Nat) : Mismatch → Prop where
  | names (other : ¬ ∀ name, name ∈ c.attributes.keys ↔ name ∈ Table.keys schema) :
      Departs schema c first k (.names k (sortedNames c.attributes.keys) (sortedNames (Table.keys schema)))
  | normals (other : c.normals.length ≠ c.vertexCount) :
      Departs schema c first k (.normals k c.normals.length c.vertexCount)
  | length {name : Text} {column : Column α} (carried : (name, column) ∈ c.attributes)
      (other : column.items.length ≠ c.vertexCount) :
      Departs schema c first k (.length name k column.items.length c.vertexCount)
  | dtype {name : Text} {column : Column α} {dtype : Dtype} (carried : (name, column) ∈ c.attributes)
      (known : Table.get? name schema = some dtype) (other : column.dtype ≠ dtype) :
      Departs schema c first k (.dtype name k column.dtype dtype)
  | itemShape {name : Text} {column reference : Column α} (carried : (name, column) ∈ c.attributes)
      (known : first.column? name = some reference) (other : column.itemShape ≠ reference.itemShape) :
      Departs schema c first k (.itemShape name k column.itemShape)

theorem Departs.chunk_eq {m : Mismatch} (departs : c.Departs schema first k m) : m.chunk = k := by
  cases departs <;> rfl

theorem Departs.not_fits {m : Mismatch} (departs : c.Departs schema first k m) : ¬ c.Fits schema first := by
  intro fits
  cases departs with
  | names other => exact other fits.names
  | normals other => exact other fits.normals
  | length carried other => exact other (fits.columns _ carried).1
  | dtype carried known other =>
      obtain ⟨-, stored, -⟩ := fits.columns _ carried
      rw [known, Option.some.injEq] at stored
      exact other stored.symm
  | itemShape carried known other =>
      obtain ⟨-, -, reference, found, same⟩ := fits.columns _ carried
      rw [known, Option.some.injEq] at found
      exact other (found ▸ same)

theorem departs_of_checkColumn {entry : Text × Column α} (carried : entry ∈ c.attributes)
    (listed : entry.1 ∈ Table.keys schema) (led : entry.1 ∈ first.attributes.keys) {fault : Fault α}
    (stopped : checkColumn schema first k c entry = .error fault) :
    ∃ m, fault = .mismatch m ∧ c.Departs schema first k m := by
  obtain ⟨name, column⟩ := entry
  obtain ⟨dtype, known⟩ := Table.exists_get?_of_mem_keys listed
  obtain ⟨reference, found⟩ := Table.exists_get?_of_mem_keys led
  have leads : first.column? name = some reference := found
  by_cases length : column.items.length = c.vertexCount
  · by_cases stored : column.dtype = dtype
    · by_cases shape : column.itemShape = reference.itemShape
      · simp [checkColumn, length, known, stored, leads, shape] at stopped
      · simp [checkColumn, length, known, stored, leads, shape] at stopped
        exact ⟨_, stopped.symm, .itemShape carried leads shape⟩
    · simp [checkColumn, length, known, stored] at stopped
      exact ⟨_, stopped.symm, .dtype carried known stored⟩
  · simp [checkColumn, length] at stopped
    exact ⟨_, stopped.symm, .length carried length⟩

theorem departs_of_check (led : (∀ name, name ∈ c.attributes.keys ↔ name ∈ Table.keys schema) →
      ∀ name ∈ Table.keys schema, name ∈ first.attributes.keys) {fault : Fault α}
    (stopped : check schema first k c = .error fault) : ∃ m, fault = .mismatch m ∧ c.Departs schema first k m := by
  by_cases names : sameNames c.attributes.keys (Table.keys schema) = true
  · have same := sameNames_iff.mp names
    by_cases normals : c.normals.length = c.vertexCount
    · simp only [check, names, normals, Bool.not_true, Bool.false_eq_true, if_false, ne_eq,
        not_true_eq_false] at stopped
      obtain ⟨entry, carried, fails⟩ := Outcome.exists_of_forM_eq_error stopped
      have listed : entry.1 ∈ Table.keys schema := (same _).mp (Table.mem_keys_of_mem carried)
      exact departs_of_checkColumn carried listed (led same _ listed) fails
    · simp [check, names, normals] at stopped
      exact ⟨_, stopped.symm, .normals normals⟩
  · simp [check, names] at stopped
    exact ⟨_, stopped.symm, .names fun same => names (sameNames_iff.mpr same)⟩

theorem departs_of_checkAll {chunks : List (Chunk α)} (led : ∀ name ∈ Table.keys schema, name ∈ first.attributes.keys)
    {fault : Fault α} (stopped : checkAll schema first k chunks = .error fault) :
    ∃ (i : Nat) (c : Chunk α) (m : Mismatch), chunks[i]? = some c ∧ fault = .mismatch m ∧
      c.Departs schema first (k + i) m ∧
      ∀ j < i, ∀ other : Chunk α, chunks[j]? = some other → other.Fits schema first := by
  induction chunks generalizing k with
  | nil => cases stopped
  | cons c rest ih =>
      rw [checkAll] at stopped
      cases checked : check schema first k c with
      | error other =>
          rw [checked] at stopped
          cases stopped
          obtain ⟨m, told, departs⟩ := departs_of_check (fun _ => led) checked
          exact ⟨0, c, m, rfl, told, departs, fun j before => absurd before (Nat.not_lt_zero j)⟩
      | ok passed =>
          rw [checked, Outcome.ok_bind] at stopped
          obtain ⟨i, other, m, found, told, departs, before⟩ := ih stopped
          refine ⟨i + 1, other, m, found, told, ?_, ?_⟩
          · rwa [Nat.add_assoc, Nat.add_comm 1] at departs
          · intro j earlier another present
            cases j with
            | zero =>
                cases present
                exact check_eq_ok_iff.mp checked
            | succ j => exact before j (by omega) another present

theorem departs_of_checkAll_cons {rest : List (Chunk α)} {fault : Fault α}
    (stopped : checkAll schema first 0 (first :: rest) = .error fault) :
    ∃ (i : Nat) (c : Chunk α) (m : Mismatch), (first :: rest)[i]? = some c ∧ fault = .mismatch m ∧
      c.Departs schema first i m ∧
      ∀ j < i, ∀ other : Chunk α, (first :: rest)[j]? = some other → other.Fits schema first := by
  by_cases fits : first.Fits schema first
  · obtain ⟨i, c, m, found, told, departs, before⟩ := departs_of_checkAll (fun name => (fits.names name).mpr) stopped
    rw [Nat.zero_add] at departs
    exact ⟨i, c, m, found, told, departs, before⟩
  · rw [checkAll] at stopped
    cases checked : check schema first 0 first with
    | error other =>
        rw [checked] at stopped
        cases stopped
        obtain ⟨m, told, departs⟩ := departs_of_check (fun same name => (same name).mpr) checked
        exact ⟨0, first, m, rfl, told, departs, fun j before => absurd before (Nat.not_lt_zero j)⟩
    | ok passed => exact absurd (check_eq_ok_iff.mp checked) fits

end Chunk

theorem Mismatch.message_eq (m : Mismatch) :
    ∃ before behind, m.message = before ++ s!"chunk {m.chunk} has " ++ behind := by
  have shown (s : String) : toString s = s := rfl
  have inside : " of chunk " = " of " ++ "chunk " := by decide
  -- The messages are spelled out: their equations are slow to be made.
  cases m with
  | names k found expected =>
      have told : " has attributes " = " has " ++ "attributes " := by decide
      refine ⟨"", s!"attributes {quotedList found}, expected {quotedList expected}", ?_⟩
      change s!"chunk {k} has attributes {quotedList found}, expected {quotedList expected}" = _
      simp only [chunk, shown, told, String.append_assoc, String.empty_append]
  | normals k found vertices =>
      refine ⟨"", s!"{found} normals for {vertices} vertices", ?_⟩
      change s!"chunk {k} has {found} normals for {vertices} vertices" = _
      simp only [chunk, shown, String.append_assoc, String.empty_append]
  | length name k found vertices =>
      refine ⟨s!"attribute {quoted name} of ", s!"{found} entries for {vertices} vertices", ?_⟩
      change s!"attribute {quoted name} of chunk {k} has {found} entries for {vertices} vertices" = _
      simp only [chunk, shown, inside, String.append_assoc]
  | dtype name k found expected =>
      have told : " has dtype " = " has " ++ "dtype " := by decide
      refine ⟨s!"attribute {quoted name} of ", s!"dtype {found.name}, expected {expected.name}", ?_⟩
      change s!"attribute {quoted name} of chunk {k} has dtype {found.name}, expected {expected.name}" = _
      simp only [chunk, shown, inside, told, String.append_assoc]
  | itemShape name k found =>
      have told : " has item shape " = " has " ++ "item shape " := by decide
      refine ⟨s!"attribute {quoted name} of ", s!"item shape {tuple (found.map toString)}", ?_⟩
      change s!"attribute {quoted name} of chunk {k} has item shape {tuple (found.map toString)}" = _
      simp only [chunk, shown, inside, told, String.append_assoc]

namespace Mesh

variable {α : Type} {chunks : List (Chunk α)} {schema : Option Schema}

/-- The schema that chunks are merged under: a given one, or that of the first chunk. -/
def ruling (chunks : List (Chunk α)) (schema : Option Schema) : Schema :=
  schema.getD ((chunks.head?.map Chunk.schema).getD [])

/-- Chunk `k` departs from the schema that rules or from the first of the chunks. -/
def Strays (chunks : List (Chunk α)) (schema : Option Schema) (k : Nat) (m : Mismatch) : Prop :=
  ∃ first c, chunks.head? = some first ∧ chunks[k]? = some c ∧ c.Departs (ruling chunks schema) first k m

theorem Strays.chunk_eq {k : Nat} {m : Mismatch} (strays : Strays chunks schema k m) : m.chunk = k := by
  obtain ⟨_, _, -, -, departs⟩ := strays
  exact departs.chunk_eq

theorem schema_of_merge {m : Mesh α} (merged : merge chunks schema = .ok m) :
    m.toChunk.schema = ruling chunks schema := by
  cases chunks with
  | nil =>
      cases merged
      simp only [Chunk.schema, toChunk, blank, List.map_map]
      exact List.map_id _
  | cons first rest =>
      obtain ⟨-, faces, -, rfl⟩ := merge_eq_ok_iff.mp merged
      exact schema_gathered _ first (first :: rest) faces

theorem not_strays_of_merge {m : Mesh α} (merged : merge chunks schema = .ok m) {k : Nat} {other : Mismatch} :
    ¬ Strays chunks schema k other := by
  rintro ⟨first, c, head, found, departs⟩
  cases chunks with
  | nil => cases head
  | cons _ rest =>
      cases head
      exact departs.not_fits ((merge_eq_ok_iff.mp merged).1 c (List.mem_of_getElem? found))

theorem strays_of_merge (flat : ∀ c ∈ chunks, ∃ rows, c.faces = .triangles rows) {fault : Fault α}
    (stopped : merge chunks schema = .error fault) :
    ∃ k m, fault = .mismatch m ∧ Strays chunks schema k m ∧ ∀ j < k, ∀ other, ¬ Strays chunks schema j other := by
  cases chunks with
  | nil => cases stopped
  | cons first rest =>
      cases checked : Chunk.checkAll (ruling (first :: rest) schema) first 0 (first :: rest) with
      | ok passed =>
          have merged := merge_of_fits (Chunk.checkAll_eq_ok_iff.mp checked)
          rw [Chunk.stack?_shiftedFaces flat, stopped] at merged
          cases merged
      | error other =>
          have same : merge (first :: rest) schema = .error other := by
            change (Chunk.checkAll (ruling (first :: rest) schema) first 0 (first :: rest) >>= _) = _
            rw [checked, Outcome.error_bind]
          rw [stopped] at same
          cases same
          obtain ⟨k, c, m, found, told, departs, before⟩ := Chunk.departs_of_checkAll_cons checked
          refine ⟨k, m, told, ⟨first, c, rfl, found, departs⟩, ?_⟩
          rintro j earlier other ⟨_, another, head, present, stray⟩
          cases head
          exact stray.not_fits (before j earlier another present)

/-- Chunks are refused exactly where one of them strays, the message names the first one that does, and there is no
other way in which they can fail. What they merge into has the attributes of the schema and no others. -/
theorem heterogeneous_refused (chunks : List (Chunk α)) (schema : Option Schema)
    (flat : ∀ c ∈ chunks, ∃ rows, c.faces = .triangles rows) :
    ((∃ fault, merge chunks schema = .error fault ∧ fault.kind = .schema) ↔ ∃ k m, Strays chunks schema k m) ∧
      (∀ fault, merge chunks schema = .error fault →
        ∃ k m, fault = .mismatch m ∧ Strays chunks schema k m ∧
          (∀ j < k, ∀ other, ¬ Strays chunks schema j other) ∧
            ∃ before behind, m.message = before ++ s!"chunk {k} has " ++ behind) ∧
      ∀ mesh, merge chunks schema = .ok mesh → mesh.toChunk.schema = ruling chunks schema := by
  refine ⟨⟨?_, ?_⟩, ?_, fun mesh => schema_of_merge⟩
  · rintro ⟨fault, stopped, -⟩
    obtain ⟨k, m, -, strays, -⟩ := strays_of_merge flat stopped
    exact ⟨k, m, strays⟩
  · rintro ⟨k, m, strays⟩
    cases merged : merge chunks schema with
    | ok mesh => exact absurd strays (not_strays_of_merge merged)
    | error fault =>
        obtain ⟨_, _, rfl, -⟩ := strays_of_merge flat merged
        exact ⟨_, rfl, rfl⟩
  · intro fault stopped
    obtain ⟨k, m, told, strays, before⟩ := strays_of_merge flat stopped
    have named := m.message_eq
    rw [strays.chunk_eq] at named
    exact ⟨k, m, told, strays, before, named⟩

theorem heterogeneous_refused_second :
    let tile (attributes : Table Text (Column Float)) : Chunk Float := ⟨[0], [0], .triangles [], attributes⟩
    let chunks :=
      [tile [("branch_radius", .ofReals .single [1])], tile [("branch_radius", .ofReals .double [1])], tile []]
    (∀ c ∈ chunks, ∃ rows, c.faces = .triangles rows) ∧
      Strays chunks none 1 (.dtype "branch_radius" 1 .double .single) ∧
      ∃ fault, merge chunks none = .error fault ∧ fault.kind = .schema := by
  intro tile chunks
  have flat : ∀ c ∈ chunks, ∃ rows, c.faces = .triangles rows := by
    intro c member
    refine ⟨[], ?_⟩
    rcases List.mem_cons.mp member with rfl | later
    · rfl
    · rcases List.mem_pair.mp later with rfl | rfl <;> rfl
  have other : (Column.ofReals .double [(1 : Float)]).dtype ≠ .single := by decide
  have strays : Strays chunks none 1 (.dtype "branch_radius" 1 .double .single) :=
    ⟨_, _, rfl, rfl, .dtype List.mem_cons_self rfl other⟩
  exact ⟨flat, strays, (heterogeneous_refused chunks none flat).1.mpr ⟨1, _, strays⟩⟩

end Mesh

end Arbor
