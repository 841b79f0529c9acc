import Arbor.Proofs.Mesh.Blocks
import Arbor.Proofs.Mesh.Fitting
import Arbor.Proofs.Mesh.Stacking

namespace Arbor

theorem Triangle.toList_map {ι κ : Type} (f : ι → κ) (t : Triangle ι) : (t.map f).toList = t.toList.map f := rfl

theorem toNat_add_ofNat {i : UInt32} {offset : Nat} (room : i.toNat + offset < 2 ^ 32) :
    (i + UInt32.ofNat offset).toNat = i.toNat + offset := by
  have small : offset < 2 ^ 32 := by omega
  rw [UInt32.toNat_add, UInt32.toNat_ofNat_of_lt' small, Nat.mod_eq_of_lt room]

theorem Faces.toTriangles_shifted (offset : Nat) (f : Faces) :
    (f.shifted offset).toTriangles = f.toTriangles.map (Triangle.map (· + UInt32.ofNat offset)) := by
  cases f <;> rfl

theorem Faces.toTriangles_append? {first second f : Faces} (appended : first.append? second = some f) :
    f.toTriangles = first.toTriangles ++ second.toTriangles := by
  cases first <;> cases second <;> cases appended <;> rfl

theorem Faces.toTriangles_stack? {buffers : List Faces} {f : Faces} (stacked : stack? buffers = some f) :
    f.toTriangles = buffers.flatMap toTriangles := by
  induction buffers generalizing f with
  | nil =>
      cases stacked
      rfl
  | cons first rest ih =>
      cases rest with
      | nil =>
          cases stacked
          simp
      | cons second rest =>
          obtain ⟨behind, later, appended⟩ := Option.bind_eq_some_iff.mp stacked
          rw [toTriangles_append? appended, ih later, ← List.flatMap_cons]

namespace Chunk

variable {α : Type} {chunks : List (Chunk α)} {k : Nat} {c : Chunk α}

def triangleCount (c : Chunk α) : Nat := c.faces.toTriangles.length

/-- The number that the first vertex of chunk `k` gets in the mesh. -/
def firstVertex (chunks : List (Chunk α)) (k : Nat) : Nat := Blocks.before vertexCount chunks k

def firstTriangle (chunks : List (Chunk α)) (k : Nat) : Nat := Blocks.before triangleCount chunks k

/-- No triangle of a chunk goes beyond its own vertices. -/
def Closed (c : Chunk α) : Prop := ∀ t ∈ c.faces.toTriangles, ∀ i ∈ t.toList, i.toNat < c.vertexCount

theorem firstVertex_add_le (found : chunks[k]? = some c) :
    firstVertex chunks k + c.vertexCount ≤ (chunks.map vertexCount).sum :=
  Blocks.before_add_le vertexCount found

theorem flatMap_shiftedFaces (first : Nat) (chunks : List (Chunk α)) :
    (shiftedFaces first chunks).flatMap Faces.toTriangles = (blocks first chunks).flatten := by
  induction chunks generalizing first with
  | nil => rfl
  | cons c rest ih => rw [shiftedFaces, blocks, List.flatMap_cons, List.flatten_cons, ih]

theorem length_blocks (first : Nat) (chunks : List (Chunk α)) :
    (blocks first chunks).flatten.length = (chunks.map triangleCount).sum := by
  induction chunks generalizing first with
  | nil => rfl
  | cons c rest ih =>
      rw [blocks, List.flatten_cons, List.length_append, ih, Faces.toTriangles_shifted, List.length_map, List.map_cons,
        List.sum_cons]
      rfl

theorem getElem?_blocks {first t : Nat} {triangle : Triangle UInt32} (found : chunks[k]? = some c)
    (row : c.faces.toTriangles[t]? = some triangle) :
    (blocks first chunks).flatten[firstTriangle chunks k + t]? =
      some (triangle.map (· + UInt32.ofNat (first + firstVertex chunks k))) := by
  induction chunks generalizing first k with
  | nil => cases found
  | cons other rest ih =>
      have length : ((other.faces.shifted first).toTriangles).length = other.triangleCount := by
        rw [Faces.toTriangles_shifted, List.length_map, triangleCount]
      rw [blocks, List.flatten_cons]
      cases k with
      | zero =>
          cases found
          have inside : t < c.triangleCount := (List.getElem?_eq_some_iff.mp row).1
          rw [firstTriangle, firstVertex, Blocks.before_zero, Blocks.before_zero, Nat.zero_add, Nat.add_zero,
            List.getElem?_append_left (by omega), Faces.toTriangles_shifted, List.getElem?_map, row, Option.map_some]
      | succ k =>
          have later : (blocks (first + other.vertexCount) rest).flatten[firstTriangle rest k + t]? = _ := ih found
          rw [firstTriangle, firstVertex] at later ⊢
          rw [Blocks.before_cons_succ, Blocks.before_cons_succ, List.getElem?_append_right (by omega), length,
            Nat.add_assoc other.triangleCount, Nat.add_sub_cancel_left, ← Nat.add_assoc first]
          exact later

theorem exists_of_mem_blocks {first : Nat} {moved : Triangle UInt32} (member : moved ∈ (blocks first chunks).flatten) :
    ∃ (k : Nat) (c : Chunk α), chunks[k]? = some c ∧ ∃ triangle ∈ c.faces.toTriangles,
      moved = triangle.map (· + UInt32.ofNat (first + firstVertex chunks k)) := by
  induction chunks generalizing first with
  | nil => cases member
  | cons other rest ih =>
      rw [blocks, List.flatten_cons, Faces.toTriangles_shifted] at member
      rcases List.mem_append.mp member with here | behind
      · obtain ⟨triangle, own, rfl⟩ := List.mem_map.mp here
        exact ⟨0, other, rfl, triangle, own, rfl⟩
      · obtain ⟨k, c, found, triangle, own, rfl⟩ := ih behind
        refine ⟨k + 1, c, found, triangle, own, ?_⟩
        rw [firstVertex, firstVertex, Blocks.before_cons_succ, Nat.add_assoc]

end Chunk

namespace Mesh

variable {α : Type} {chunks : List (Chunk α)}

/-- Vertex `j` of a mesh is vertex `i` of a chunk: it lies where that lies, with the same normal and attributes. -/
structure SameVertex (m : Mesh α) (j : Nat) (c : Chunk α) (i : Nat) : Prop where
  inside : j < m.vertexCount
  position : m.positions[j]? = c.positions[i]?
  normal : m.normals[j]? = c.normals[i]?
  items : ∀ name column own, m.column? name = some column → c.column? name = some own →
    column.items[j]? = own.items[i]?

structure Joins (m : Mesh α) (chunks : List (Chunk α)) : Prop where
  positions : m.positions = chunks.flatMap Chunk.positions
  normals : m.normals = chunks.flatMap Chunk.normals
  names : ∀ c ∈ chunks, ∀ name, name ∈ m.attributes.keys ↔ name ∈ c.attributes.keys
  columns : ∀ name column, m.column? name = some column →
    column.items = (chunks.flatMap fun c => c.items name) ∧
      ∀ c ∈ chunks, ∃ own, c.column? name = some own ∧ own.dtype = column.dtype ∧ own.itemShape = column.itemShape
  triangles : m.faces.toTriangles.length = (chunks.map Chunk.triangleCount).sum

variable {m : Mesh α}

theorem column?_gathered (schema : Schema) (first : Chunk α) (faces : Faces) (name : Text) :
    (gathered schema first chunks faces).column? name = (Table.get? name schema).map (Chunk.joined chunks first name) :=
  Table.get?_map name (Chunk.joined chunks first) schema

theorem joins_of_merge {schema : Option Schema} (merged : merge chunks schema = .ok m) :
    m.Joins chunks ∧ m.faces.toTriangles = (Chunk.blocks 0 chunks).flatten ∧
      ∀ c ∈ chunks, c.normals.length = c.vertexCount ∧ ∀ name column, c.column? name = some column →
        column.items.length = c.vertexCount := by
  cases chunks with
  | nil =>
      cases merged
      refine ⟨⟨rfl, rfl, ?_, ?_, rfl⟩, rfl, ?_⟩
      · intro c member
        cases member
      · intro name column found
        have blank := Table.get?_map name (fun _ dtype => (⟨dtype, [], []⟩ : Column α)) (schema.getD [])
        rw [column?, Mesh.blank, blank] at found
        obtain ⟨dtype, -, rfl⟩ := Option.map_eq_some_iff.mp found
        refine ⟨rfl, ?_⟩
        intro c member
        cases member
      · intro c member
        cases member
  | cons first rest =>
      obtain ⟨each, faces, stacked, rfl⟩ := merge_eq_ok_iff.mp merged
      have rows : faces.toTriangles = (Chunk.blocks 0 (first :: rest)).flatten := by
        rw [Faces.toTriangles_stack? stacked, Chunk.flatMap_shiftedFaces]
      refine ⟨⟨rfl, rfl, ?_, ?_, ?_⟩, rows, ?_⟩
      · intro c member name
        rw [(each c member).names name]
        rw [gathered, Table.keys_map (Chunk.joined (first :: rest) first)]
      · intro name column found
        rw [column?_gathered] at found
        obtain ⟨dtype, known, rfl⟩ := Option.map_eq_some_iff.mp found
        have listed : name ∈ Table.keys (schema.getD first.schema) := List.mem_map.mpr ⟨_, Table.mem_of_get? known, rfl⟩
        refine ⟨rfl, ?_⟩
        intro c member
        obtain ⟨own, present, -, stored, reference, head, shape⟩ := Chunk.column_of_fits (each c member) listed
        rw [known, Option.some.injEq] at stored
        refine ⟨own, present, stored.symm, ?_⟩
        rw [Chunk.joined, Chunk.shape, head, Option.map_some, Option.getD_some]
        exact shape
      · exact (congrArg List.length rows).trans (Chunk.length_blocks 0 (first :: rest))
      · intro c member
        refine ⟨(each c member).normals, ?_⟩
        intro name column found
        exact ((each c member).columns _ (Table.mem_of_get? found)).1

theorem sameVertex_of_merge {schema : Option Schema} (merged : merge chunks schema = .ok m) {k : Nat} {c : Chunk α}
    (found : chunks[k]? = some c) {i : Nat} (inside : i < c.vertexCount) :
    m.SameVertex (Chunk.firstVertex chunks k + i) c i := by
  obtain ⟨joins, -, sized⟩ := joins_of_merge merged
  refine ⟨?_, ?_, ?_, ?_⟩
  · have bound := Chunk.firstVertex_add_le found
    rw [vertexCount, joins.positions, List.length_flatMap]
    exact Nat.lt_of_lt_of_le (Nat.add_lt_add_left inside _) bound
  · rw [joins.positions]
    exact Blocks.getElem?_flatMap (fun other _ => rfl) found inside
  · rw [joins.normals]
    exact Blocks.getElem?_flatMap (fun other member => (sized other member).1) found inside
  · intro name column own carried present
    obtain ⟨items, each⟩ := joins.columns name column carried
    have same : own.items = c.items name := by rw [Chunk.items, present, Option.map_some, Option.getD_some]
    rw [items, same]
    refine Blocks.getElem?_flatMap ?_ found inside
    intro other member
    obtain ⟨column, present, -⟩ := each other member
    rw [Chunk.items, present, Option.map_some, Option.getD_some]
    exact (sized other member).2 name column present

/-- A mesh into which chunks have been merged without any loss: every triangle of a chunk is found again behind those
of the chunks before it, and each of its corners is the vertex that it was. -/
structure Keeps (m : Mesh α) (chunks : List (Chunk α)) : Prop extends m.Joins chunks where
  found : ∀ k c t triangle, chunks[k]? = some c → c.faces.toTriangles[t]? = some triangle →
    ∃ moved, m.faces.toTriangles[Chunk.firstTriangle chunks k + t]? = some moved ∧
      List.Forall₂ (fun i j => j.toNat = Chunk.firstVertex chunks k + i.toNat ∧ m.SameVertex j.toNat c i.toNat)
        triangle.toList moved.toList
  within : ∀ triangle ∈ m.faces.toTriangles, ∀ j ∈ triangle.toList, j.toNat < m.vertexCount

/-- Chunks that merge keep every triangle, if none of them goes beyond its own chunk and the vertices can be told apart
by 32 bits. -/
theorem merge_keeps_triangles {schema : Option Schema} (merged : merge chunks schema = .ok m)
    (closed : ∀ c ∈ chunks, c.Closed) (room : (chunks.map Chunk.vertexCount).sum ≤ 2 ^ 32) : m.Keeps chunks := by
  obtain ⟨joins, rows, -⟩ := joins_of_merge merged
  -- No sum wraps: the vertex that it numbers is one of the mesh.
  have stored {k : Nat} {c : Chunk α} (at_k : chunks[k]? = some c) {triangle : Triangle UInt32}
      (own : triangle ∈ c.faces.toTriangles) {i : UInt32} (corner : i ∈ triangle.toList) :
      (i + UInt32.ofNat (0 + Chunk.firstVertex chunks k)).toNat = Chunk.firstVertex chunks k + i.toNat ∧
        m.SameVertex (Chunk.firstVertex chunks k + i.toNat) c i.toNat := by
    have inside := closed c (List.mem_of_getElem? at_k) triangle own i corner
    have bound := Chunk.firstVertex_add_le at_k
    rw [Nat.zero_add, toNat_add_ofNat, Nat.add_comm]
    · exact ⟨rfl, sameVertex_of_merge merged at_k inside⟩
    · omega
  refine ⟨joins, ?_, ?_⟩
  · intro k c t triangle at_k row
    have place : (Chunk.blocks 0 chunks).flatten[Chunk.firstTriangle chunks k + t]? = _ :=
      Chunk.getElem?_blocks at_k row
    rw [← rows] at place
    refine ⟨_, place, ?_⟩
    rw [Triangle.toList_map, List.forall₂_map_right_iff, List.forall₂_same]
    intro i corner
    obtain ⟨moved, same⟩ := stored at_k (List.mem_of_getElem? row) corner
    rw [moved]
    exact ⟨rfl, same⟩
  · intro triangle member j corner
    rw [rows] at member
    obtain ⟨k, c, at_k, own, inside, rfl⟩ := Chunk.exists_of_mem_blocks member
    rw [Triangle.toList_map] at corner
    obtain ⟨i, original, rfl⟩ := List.mem_map.mp corner
    obtain ⟨moved, same⟩ := stored at_k inside original
    rw [moved]
    exact same.inside

theorem merge_keeps_triangles_gap :
    let corners : List (Vec3 Float) := [⟨0, 0, 0⟩, ⟨1, 0, 0⟩, ⟨0, 0, 1⟩]
    let tile (face : Triangle UInt32) : Chunk Float :=
      ⟨corners, corners, .triangles [face], [("branch_radius", .ofReals .single [1, 2, 3])]⟩
    let gap : Chunk Float := ⟨[], [], .triangles [], [("branch_radius", .ofReals .single [])]⟩
    let chunks := [tile ⟨2, 1, 0⟩, gap, tile ⟨0, 1, 2⟩]
    ∃ m, merge chunks none = .ok m ∧ (∀ c ∈ chunks, c.Closed) ∧ (chunks.map Chunk.vertexCount).sum ≤ 2 ^ 32 ∧
      m.Keeps chunks := by
  intro corners tile gap chunks
  obtain ⟨m, merged⟩ : ∃ m, merge chunks none = .ok m := ⟨_, rfl⟩
  have tiled (face : Triangle UInt32) (inside : ∀ i ∈ face.toList, i.toNat < 3) : (tile face).Closed := by
    intro t member
    obtain rfl := List.mem_singleton.mp member
    exact inside
  have closed : ∀ c ∈ chunks, c.Closed := by
    intro c member
    rcases List.mem_cons.mp member with rfl | later
    · exact tiled _ (by simp [Triangle.toList])
    rcases List.mem_cons.mp later with rfl | last
    · exact fun _ absent => absurd absent List.not_mem_nil
    · rw [List.mem_singleton.mp last]
      exact tiled _ (by simp [Triangle.toList])
  have room : (chunks.map Chunk.vertexCount).sum ≤ 2 ^ 32 := by decide
  exact ⟨m, merged, closed, room, merge_keeps_triangles merged closed room⟩

end Mesh

end Arbor
