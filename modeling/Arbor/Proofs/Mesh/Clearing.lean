import Arbor.Proofs.Mesh.Conforming
import Arbor.Proofs.Mesh.Merging
import Arbor.Proofs.Thinning

/-!
# Clearing

Chunks may be left out of a mesh. Their blocks are then gone from every buffer of it, and the triangles of the other
blocks have moved down behind fewer vertices, in 32 bits.
-/

namespace Arbor

namespace Blocks

variable {β γ : Type}

def cut : List Nat → List γ → List (List γ)
  | [], _ => []
  | n :: sizes, buffer => buffer.take n :: cut sizes (buffer.drop n)

theorem cut_flatten (blocks : List (List γ)) : cut (blocks.map List.length) blocks.flatten = blocks := by
  induction blocks with
  | nil => rfl
  | cons block blocks ih => rw [List.map_cons, List.flatten_cons, cut, List.take_left, List.drop_left, ih]

theorem thin_cut {size : β → Nat} {buffer : β → List γ} {xs : List β} (sized : ∀ x ∈ xs, (buffer x).length = size x)
    (gone : List Bool) :
    (thin gone (cut (xs.map size) (xs.flatMap buffer))).flatten = (thin gone xs).flatMap buffer := by
  have sizes : xs.map size = (xs.map buffer).map List.length := by
    rw [List.map_map]
    exact List.map_congr_left fun x member => (sized x member).symm
  rw [sizes, List.flatMap_def, cut_flatten, thin_map, List.flatMap_def]

end Blocks

namespace Faces

/-- Whether an index buffer is what a primitive without any face leaves. -/
def isHollow : Faces → Bool
  | triangles _ => false
  | hollow _ => true

theorem isHollow_shifted (offset : Nat) (f : Faces) : (f.shifted offset).isHollow = f.isHollow := by
  cases f <;> rfl

theorem rowCount_shifted (offset : Nat) (f : Faces) : (f.shifted offset).rowCount = f.rowCount := by
  cases f <;> simp [shifted, rowCount]

theorem append?_eq_some {f g h : Faces} (appended : f.append? g = some h) :
    f.isHollow = h.isHollow ∧ g.isHollow = h.isHollow ∧ h.rowCount = f.rowCount + g.rowCount := by
  cases f <;> cases g <;> cases appended <;> simp [isHollow, rowCount]

theorem exists_append? {f g : Faces} (same : f.isHollow = g.isHollow) : ∃ h, f.append? g = some h := by
  cases f <;> cases g <;> first | exact ⟨_, rfl⟩ | cases same

theorem isHollow_of_stack? {buffers : List Faces} {f : Faces} (stacked : stack? buffers = some f) :
    (∀ g ∈ buffers, g.isHollow = f.isHollow) ∧ f.rowCount = (buffers.map rowCount).sum := by
  induction buffers generalizing f with
  | nil =>
      cases stacked
      exact ⟨fun g member => (nomatch member), rfl⟩
  | cons first rest ih =>
      cases rest with
      | nil =>
          cases stacked
          exact ⟨fun g member => List.mem_singleton.mp member ▸ rfl, by simp⟩
      | cons second rest =>
          obtain ⟨behind, later, appended⟩ := Option.bind_eq_some_iff.mp stacked
          obtain ⟨same, rows⟩ := ih later
          obtain ⟨own, others, total⟩ := append?_eq_some appended
          refine ⟨?_, ?_⟩
          · rw [List.forall_mem_cons]
            exact ⟨own, fun g member => (same g member).trans others⟩
          · rw [total, rows]
            rfl

theorem exists_stack? {buffers : List Faces} {width : Bool} (same : ∀ g ∈ buffers, g.isHollow = width) :
    ∃ f, stack? buffers = some f := by
  induction buffers with
  | nil => exact ⟨_, rfl⟩
  | cons first rest ih =>
      cases rest with
      | nil => exact ⟨first, rfl⟩
      | cons second rest =>
          rw [List.forall_mem_cons] at same
          obtain ⟨behind, later⟩ := ih same.2
          have one := (isHollow_of_stack? later).1 second List.mem_cons_self
          have width := same.1.trans ((same.2 second List.mem_cons_self).symm.trans one)
          obtain ⟨f, appended⟩ := exists_append? width
          exact ⟨f, Option.bind_eq_some_iff.mpr ⟨behind, later, appended⟩⟩

end Faces

namespace Triangle

def lowered : Nat → List Bool → List Nat → List (List (Triangle UInt32)) → List (List (Triangle UInt32))
  | lost, gone, n :: sizes, rows :: rest =>
      rows.map (map (· - UInt32.ofNat lost)) ::
        lowered (if gone.headD false then lost + n else lost) gone.tail sizes rest
  | _, _, _, _ => []

theorem map_sub_map_add (first lost : Nat) (t : Triangle UInt32) :
    (t.map (· + UInt32.ofNat (first + lost))).map (· - UInt32.ofNat lost) = t.map (· + UInt32.ofNat first) := by
  simp [map, UInt32.ofNat_add, ← UInt32.add_assoc]

end Triangle

namespace Chunk

variable {α : Type}

theorem blocks_thin (gone : List Bool) (chunks : List (Chunk α)) (first lost : Nat) :
    blocks first (thin gone chunks) =
      thin gone (Triangle.lowered lost gone (chunks.map vertexCount) (blocks (first + lost) chunks)) := by
  induction chunks generalizing gone first lost with
  | nil => rfl
  | cons c rest ih =>
      -- A block that stays moves down as far as the blocks that are gone before it had moved it up.
      rw [blocks, List.map_cons, Triangle.lowered]
      by_cases left : gone.headD false = true
      · rw [thin_cons_of_gone left, thin_cons_of_gone left, if_pos left, ih gone.tail first (lost + c.vertexCount),
          Nat.add_assoc]
      · have order : first + lost + c.vertexCount = first + c.vertexCount + lost := by omega
        rw [thin_cons_of_kept left, thin_cons_of_kept left, if_neg left, blocks, ih gone.tail _ lost, order]
        congr 1
        rw [Faces.toTriangles_shifted, Faces.toTriangles_shifted, List.map_map]
        exact List.map_congr_left fun t _ => (Triangle.map_sub_map_add first lost t).symm

theorem map_shiftedFaces {β : Type} (part : Faces → β) (kept : ∀ offset f, part (f.shifted offset) = part f)
    (first : Nat) (chunks : List (Chunk α)) :
    (shiftedFaces first chunks).map part = (chunks.map faces).map part := by
  induction chunks generalizing first with
  | nil => rfl
  | cons c rest ih => rw [shiftedFaces, List.map_cons, List.map_cons, List.map_cons, kept, ih]

theorem isHollow_shiftedFaces {first : Nat} {chunks : List (Chunk α)} {width : Bool} :
    (∀ g ∈ shiftedFaces first chunks, g.isHollow = width) ↔ ∀ g ∈ chunks.map faces, g.isHollow = width := by
  have widths (buffers : List Faces) :
      (∀ w ∈ buffers.map Faces.isHollow, w = width) ↔ ∀ g ∈ buffers, g.isHollow = width := List.forall_mem_map
  rw [← widths, map_shiftedFaces Faces.isHollow Faces.isHollow_shifted, widths]

def strung (chunks : List (Chunk α)) (name : Text) (dtype : Dtype) : Column α :=
  ⟨dtype, [], chunks.flatMap fun c => c.items name⟩

theorem length_of_blocks (first : Nat) (chunks : List (Chunk α)) :
    (blocks first chunks).map List.length = chunks.map triangleCount := by
  induction chunks generalizing first with
  | nil => rfl
  | cons c rest ih =>
      rw [blocks, List.map_cons, List.map_cons, ih, Faces.toTriangles_shifted, List.length_map]
      rfl

end Chunk

namespace Mesh

variable {α : Type} {schema : Schema} {chunks : List (Chunk α)} {m : Mesh α}

/-- A mesh of blocks, given by the number of vertices and the faces of each, is left without some of its blocks. Where
faces are rows that name no vertex, the rows of the other blocks are left, and no rows where no block is left. -/
structure Clears (gone : List Bool) (sizes : List Nat) (faces : List Faces) (m less : Mesh α) : Prop where
  positions : less.positions = (thin gone (Blocks.cut sizes m.positions)).flatten
  normals : less.normals = (thin gone (Blocks.cut sizes m.normals)).flatten
  triangles : less.faces.toTriangles = (thin gone (Triangle.lowered 0 gone sizes
    (Blocks.cut (faces.map fun f => f.toTriangles.length) m.faces.toTriangles))).flatten
  rows : less.faces.rowCount = ((thin gone faces).map Faces.rowCount).sum
  width : less.faces.isHollow = (m.faces.isHollow && !(thin gone faces).isEmpty)
  names : less.attributes.keys = m.attributes.keys
  columns : ∀ name column, m.column? name = some column →
    less.column? name = some { column with items := (thin gone (Blocks.cut sizes column.items)).flatten }

def pooled (schema : Schema) (chunks : List (Chunk α)) (faces : Faces) : Mesh α :=
  { positions := chunks.flatMap Chunk.positions
    normals := chunks.flatMap Chunk.normals
    faces := faces
    attributes := schema.map fun entry => (entry.1, Chunk.strung chunks entry.1 entry.2) }

theorem merge_eq_ok_of_conforms (each : ∀ c ∈ chunks, c.Conforms schema) :
    merge chunks (some schema) = .ok m ↔
      ∃ faces, Faces.stack? (Chunk.shiftedFaces 0 chunks) = some faces ∧ m = pooled schema chunks faces := by
  rw [merge_of_conforms each]
  cases Faces.stack? (Chunk.shiftedFaces 0 chunks) with
  | none => simp
  | some faces => simp [pooled, Chunk.strung, eq_comm]

theorem column?_pooled (schema : Schema) (chunks : List (Chunk α)) (faces : Faces) (name : Text) :
    (pooled schema chunks faces).column? name = (Table.get? name schema).map (Chunk.strung chunks name) :=
  Table.get?_map name (Chunk.strung chunks) schema

theorem length_items_of_conforms {c : Chunk α} (conforms : c.Conforms schema) {name : Text}
    (known : name ∈ Table.keys schema) : (c.items name).length = c.vertexCount := by
  obtain ⟨column, found⟩ := Table.exists_get?_of_mem_keys ((conforms.names name).mpr known)
  have carried : c.column? name = some column := found
  rw [Chunk.items, carried]
  exact (conforms.columns _ (Table.mem_of_get? found)).1

theorem stack?_thin {faces : Faces} (stacked : Faces.stack? (Chunk.shiftedFaces 0 chunks) = some faces)
    (gone : List Bool) :
    ∃ rest, Faces.stack? (Chunk.shiftedFaces 0 (thin gone chunks)) = some rest ∧
      rest.rowCount = ((thin gone (chunks.map Chunk.faces)).map Faces.rowCount).sum ∧
      rest.isHollow = (faces.isHollow && !(thin gone (chunks.map Chunk.faces)).isEmpty) := by
  have each := Chunk.isHollow_shiftedFaces.mp (Faces.isHollow_of_stack? stacked).1
  have left : ∀ g ∈ (thin gone chunks).map Chunk.faces, g.isHollow = faces.isHollow := by
    rw [← thin_map]
    exact fun g member => each g (mem_of_mem_thin member)
  obtain ⟨rest, again⟩ := Faces.exists_stack? (Chunk.isHollow_shiftedFaces.mpr left)
  obtain ⟨same, rows⟩ := Faces.isHollow_of_stack? again
  rw [Chunk.map_shiftedFaces _ Faces.rowCount_shifted] at rows
  refine ⟨rest, again, by rw [thin_map, rows], ?_⟩
  rw [thin_map]
  cases thinned : thin gone chunks with
  | nil =>
      rw [thinned] at again
      cases again
      simp [Faces.isHollow]
  | cons c others =>
      have here : c ∈ thin gone chunks := thinned ▸ List.mem_cons_self
      have one := Chunk.isHollow_shiftedFaces.mp same c.faces (List.mem_map_of_mem here)
      have other := left c.faces (List.mem_map_of_mem here)
      simp [← one, other]

theorem clears_of_merge (each : ∀ c ∈ chunks, c.Conforms schema) (merged : merge chunks (some schema) = .ok m)
    (gone : List Bool) :
    ∃ less, merge (thin gone chunks) (some schema) = .ok less ∧
      m.Clears gone (chunks.map Chunk.vertexCount) (chunks.map Chunk.faces) less := by
  obtain ⟨faces, stacked, rfl⟩ := (merge_eq_ok_of_conforms each).mp merged
  obtain ⟨rest, again, rows, width⟩ := stack?_thin stacked gone
  have left : ∀ c ∈ thin gone chunks, c.Conforms schema := fun c member => each c (mem_of_mem_thin member)
  refine ⟨pooled schema (thin gone chunks) rest, (merge_eq_ok_of_conforms left).mpr ⟨rest, again, rfl⟩, ?_⟩
  refine ⟨?_, ?_, ?_, rows, width, ?_, ?_⟩
  · exact (Blocks.thin_cut (fun c _ => rfl) gone).symm
  · exact (Blocks.thin_cut (fun c member => (each c member).normals) gone).symm
  · have counts : (chunks.map Chunk.faces).map (fun f => f.toTriangles.length) =
        (Chunk.blocks 0 chunks).map List.length := by
      rw [Chunk.length_of_blocks, List.map_map]
      rfl
    have before : faces.toTriangles = (Chunk.blocks 0 chunks).flatten := by
      rw [Faces.toTriangles_stack? stacked, Chunk.flatMap_shiftedFaces]
    have after : rest.toTriangles = (Chunk.blocks 0 (thin gone chunks)).flatten := by
      rw [Faces.toTriangles_stack? again, Chunk.flatMap_shiftedFaces]
    change rest.toTriangles = _
    rw [after, counts, pooled, before, Blocks.cut_flatten, Chunk.blocks_thin gone chunks 0 0]
  · rw [pooled, pooled, Table.keys, Table.keys, List.map_map, List.map_map]
    rfl
  · intro name column found
    rw [column?_pooled] at found ⊢
    obtain ⟨dtype, known, rfl⟩ := Option.map_eq_some_iff.mp found
    have listed : name ∈ Table.keys schema := Table.mem_keys_iff.mpr ⟨dtype, known⟩
    rw [known, Option.map_some, Chunk.strung, Chunk.strung,
      Blocks.thin_cut (fun c member => length_items_of_conforms (each c member) listed) gone]

end Mesh

end Arbor
