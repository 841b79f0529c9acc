import Arbor.Proofs.Mesh.Assembly
import Arbor.Proofs.Mesh.Blocks
import Arbor.Proofs.Mesh.Stacking

namespace Arbor

variable {α : Type}

def Event.radius : Event α → α
  | .segment s => s.baseRadius
  | .leaf l => l.radius

namespace Assembler

def vertices (a : Assembler α) : Event α → Nat
  | .segment _ => 4 * a.radialSegments.toNat + 2
  | .leaf _ => (a.leafSegments.toNat + 1) ^ 2

def rows (a : Assembler α) : Event α → List (Triangle Nat)
  | .segment _ => Frustum.faces a.radialSegments.toNat
  | .leaf _ => Ball.faces a.leafSegments.toNat a.leafSegments.toNat

/-- The faces of events one after another, over the vertices from `first` on. -/
def rowsFrom (a : Assembler α) : Nat → List (Event α) → List (Triangle Nat)
  | _, [] => []
  | first, event :: later => (a.rows event).map (Triangle.map (first + ·)) ++ rowsFrom a (first + a.vertices event) later

def offset (a : Assembler α) (events : List (Event α)) (k : Nat) : Nat := ((events.take k).map a.vertices).sum

def block {β : Type} (a : Assembler α) (events : List (Event α)) (k : Nat) (event : Event α) (buffer : List β) : List β :=
  (buffer.drop (a.offset events k)).take (a.vertices event)

variable {a : Assembler α} {events : List (Event α)}

@[simp] theorem offset_zero (a : Assembler α) (events : List (Event α)) : a.offset events 0 = 0 := rfl

@[simp] theorem offset_cons_succ (a : Assembler α) (event : Event α) (later : List (Event α)) (k : Nat) :
    a.offset (event :: later) (k + 1) = a.vertices event + a.offset later k :=
  Blocks.before_cons_succ a.vertices event later k

theorem offset_add_le {k : Nat} {event : Event α} (placed : events[k]? = some event) :
    a.offset events k + a.vertices event ≤ (events.map a.vertices).sum :=
  Blocks.before_add_le a.vertices placed

theorem within_of_mem_rowsFrom {first : Nat} (proper : ∀ event, ∀ t ∈ a.rows event, t.Within 0 (a.vertices event))
    {t : Triangle Nat} (member : t ∈ a.rowsFrom first events) :
    ∃ k event, events[k]? = some event ∧
      t.Within (first + a.offset events k) (first + a.offset events k + a.vertices event) := by
  induction events generalizing first with
  | nil => cases member
  | cons event later ih =>
      rcases List.mem_append.mp member with here | behind
      · obtain ⟨row, own, rfl⟩ := List.mem_map.mp here
        exact ⟨0, event, rfl, (proper event row own).shift first⟩
      · obtain ⟨k, other, placed, within⟩ := ih behind
        refine ⟨k + 1, other, placed, ?_⟩
        rwa [offset_cons_succ, ← Nat.add_assoc]

theorem length_rowsFrom (a : Assembler α) (first : Nat) (events : List (Event α)) :
    (a.rowsFrom first events).length = (events.map fun event => (a.rows event).length).sum := by
  induction events generalizing first with
  | nil => rfl
  | cons event later ih => simp [rowsFrom, ih]

theorem length_rows_segment (a : Assembler α) (s : Segment α) :
    (a.rows (.segment s)).length = 4 * a.radialSegments.toNat :=
  Frustum.length_faces _

theorem length_rows_leaf (a : Assembler α) (l : Leaf α) :
    (a.rows (.leaf l)).length = 2 * a.leafSegments.toNat * (a.leafSegments.toNat - 1) :=
  Ball.length_faces _ _

structure Fine (a : Assembler α) : Prop where
  radial : 3 ≤ a.radialSegments
  leaf : 3 ≤ a.leafSegments

theorem Fine.natCast_radial (fine : a.Fine) : (a.radialSegments.toNat : Int) = a.radialSegments :=
  Int.toNat_of_nonneg (by have := fine.radial; omega)

theorem Fine.natCast_leaf (fine : a.Fine) : (a.leafSegments.toNat : Int) = a.leafSegments :=
  Int.toNat_of_nonneg (by have := fine.leaf; omega)

theorem within_rows (fine : a.Fine) (event : Event α) : ∀ t ∈ a.rows event, t.Within 0 (a.vertices event) := by
  have radial := fine.radial
  have leaf := fine.leaf
  cases event with
  | segment s => exact Frustum.within_faces (by omega)
  | leaf l =>
      rw [vertices, Nat.pow_two]
      exact Ball.within_faces (by omega) _

variable [Scalar α]

/-- A chunk is the geometry of an event, in the number of vertices and with the faces that are due to it. -/
structure Portrays (a : Assembler α) (event : Event α) (c : Chunk α) : Prop where
  made : a.chunk event = .ok c
  shaped : c.Shaped (a.vertices event) (a.rows event)
  radius : c.items "branch_radius" = List.replicate (a.vertices event) (.real (Scalar.single event.radius))
  height : c.items "vertex_height" = c.positions.map fun p => .real p.y

theorem items_measured {c : Chunk α} {count : Nat} (size : c.vertexCount = count) (radius : α) :
    (measured c radius).items "branch_radius" = List.replicate count (.real (Scalar.single radius)) ∧
      (measured c radius).items "vertex_height" = (measured c radius).positions.map fun p => .real p.y := by
  constructor
  · rw [measured, Chunk.items_withAttribute_of_ne _ (by decide), Chunk.items_withAttribute_self, size]
    simp [Column.constant, Column.ofReals]
  · rw [measured, Chunk.items_withAttribute_self]
    simp [Column.ofReals, Chunk.withAttribute]

theorem portrays_of_chunk (fine : a.Fine) {event : Event α} {c : Chunk α} (made : a.chunk event = .ok c) :
    a.Portrays event c := by
  have radial := fine.radial
  have leaf := fine.leaf
  cases event with
  | segment s =>
      obtain ⟨plain, drawn, same⟩ := Outcome.bind_eq_ok made
      cases same
      rw [← fine.natCast_radial] at drawn
      have shaped := Frustum.shaped_of_drawn (by omega) drawn
      obtain ⟨radius, height⟩ := items_measured shaped.vertices s.baseRadius
      exact ⟨made, ⟨shaped.vertices, shaped.faces, shaped.within⟩, radius, height⟩
  | leaf l =>
      obtain ⟨plain, drawn, same⟩ := Outcome.bind_eq_ok made
      cases same
      rw [← fine.natCast_leaf] at drawn
      have shaped := Ball.shaped_of_drawn (by omega) (by omega) drawn
      rw [← Nat.pow_two] at shaped
      obtain ⟨radius, height⟩ := items_measured shaped.vertices l.radius
      exact ⟨made, ⟨shaped.vertices, shaped.faces, shaped.within⟩, radius, height⟩

theorem portrays_of_room (fine : a.Fine) {event : Event α} (room : a.vertices event ≤ 2 ^ 32)
    (tall : ∀ s, event = .segment s → (s.height == 0) = false) : ∃ c, a.chunk event = .ok c ∧ a.Portrays event c := by
  have limit : roomLimit = 2 ^ 32 := rfl
  have radial := fine.radial
  have leaf := fine.leaf
  obtain ⟨c, made⟩ : ∃ c, a.chunk event = .ok c := by
    cases event with
    | segment s =>
        rw [vertices] at room
        obtain ⟨c, drawn, -⟩ := Frustum.chunk_of_room (f := s.frustum) (n := a.radialSegments.toNat) (by omega)
          (by omega) (tall s rfl)
        rw [fine.natCast_radial] at drawn
        rw [chunk, segmentChunk, drawn]
        exact ⟨_, rfl⟩
    | leaf l =>
        rw [vertices] at room
        obtain ⟨c, drawn, -⟩ := Ball.chunk_of_room ⟨l.position, a.leafRadius⟩ (n := a.leafSegments.toNat) (by omega)
          (by omega)
        rw [fine.natCast_leaf] at drawn
        rw [chunk, leafChunk, drawn]
        exact ⟨_, rfl⟩
  exact ⟨c, made, portrays_of_chunk fine made⟩

variable {chunks : List (Chunk α)}

theorem draws_of_portrays (each : List.Forall₂ a.Portrays events chunks) : a.Draws events chunks :=
  each.imp fun _ _ portrays => portrays.made

theorem length_flatMap {β : Type} {buffer : Chunk α → List β}
    (size : ∀ event c, a.Portrays event c → (buffer c).length = a.vertices event)
    (each : List.Forall₂ a.Portrays events chunks) :
    (chunks.flatMap buffer).length = (events.map a.vertices).sum := by
  induction each with
  | nil => rfl
  | cons portrays _ ih => rw [List.flatMap_cons, List.length_append, ih, size _ _ portrays, List.map_cons, List.sum_cons]

theorem block_flatMap {β : Type} {buffer : Chunk α → List β}
    (size : ∀ event c, a.Portrays event c → (buffer c).length = a.vertices event)
    (each : List.Forall₂ a.Portrays events chunks) {k : Nat} {event : Event α} (placed : events[k]? = some event) :
    ∃ c, chunks[k]? = some c ∧ a.Portrays event c ∧ a.block events k event (chunks.flatMap buffer) = buffer c := by
  induction each generalizing k with
  | nil => cases placed
  | @cons first c later rest portrays _ ih =>
      have length := size first c portrays
      cases k with
      | zero =>
          cases placed
          refine ⟨c, rfl, portrays, ?_⟩
          rw [block, offset_zero, List.drop_zero, List.flatMap_cons, ← length, List.take_left]
      | succ k =>
          obtain ⟨other, drawn, shows, same⟩ := ih placed
          refine ⟨other, drawn, shows, ?_⟩
          rw [block, offset_cons_succ, List.flatMap_cons, ← length, List.drop_length_add_append]
          exact same

theorem blocks_of_portrays (each : List.Forall₂ a.Portrays events chunks) (first : Nat) :
    (Chunk.blocks first chunks).flatten = (a.rowsFrom first events).map (Triangle.map UInt32.ofNat) := by
  induction each generalizing first with
  | nil => rfl
  | @cons event c later rest portrays _ ih =>
      rw [Chunk.blocks, List.flatten_cons, ih, portrays.shaped.vertices, rowsFrom, List.map_append,
        portrays.shaped.faces]
      congr 1
      simp [Faces.shifted, Faces.toTriangles, Triangle.shift_ofNat]

end Assembler

namespace Mesh

variable [Scalar α]

/-- A mesh that is one block of vertices for each event: the buffers of its own geometry, which its faces join, the
radius of its branch, and everywhere the heights of the vertices themselves. -/
structure LaidOut (a : Assembler α) (events : List (Event α)) (m : Mesh α) : Prop where
  vertices : m.vertexCount = (events.map a.vertices).sum
  triangles : m.triangleCount = (events.map fun event => (a.rows event).length).sum
  block : ∀ (k : Nat) (event : Event α), events[k]? = some event →
    a.offset events k + a.vertices event ≤ m.vertexCount ∧
      ∃ c, a.chunk event = .ok c ∧ a.block events k event m.positions = c.positions ∧
        a.block events k event m.normals = c.normals
  faces : m.faces = .triangles ((a.rowsFrom 0 events).map (Triangle.map UInt32.ofNat))
  within : ∀ t ∈ m.faces.toTriangles, ∃ k event, events[k]? = some event ∧
    (t.map UInt32.toNat).Within (a.offset events k) (a.offset events k + a.vertices event)
  radius : ∃ column, m.column? "branch_radius" = some column ∧ column.dtype = .single ∧
    column.items.length = m.vertexCount ∧
      ∀ (k : Nat) (event : Event α), events[k]? = some event →
        a.block events k event column.items = List.replicate (a.vertices event) (.real (Scalar.single event.radius))
  height : ∃ column, m.column? "vertex_height" = some column ∧ column.dtype = .single ∧
    column.items = m.positions.map fun p => .real p.y

variable {a : Assembler α} {events : List (Event α)} {chunks : List (Chunk α)}

theorem stacks_of_portrays (each : List.Forall₂ a.Portrays events chunks) :
    Faces.stack? (Chunk.shiftedFaces 0 chunks) =
      some (.triangles ((a.rowsFrom 0 events).map (Triangle.map UInt32.ofNat))) := by
  rw [← Assembler.blocks_of_portrays each]
  apply Chunk.stack?_shiftedFaces
  intro c member
  obtain ⟨event, -, portrays⟩ := Outcome.related_of_mem each member
  exact ⟨_, portrays.shaped.faces⟩

theorem merge_of_portrays (each : List.Forall₂ a.Portrays events chunks) :
    ∃ m, merge chunks (some staticSchema) = .ok m := by
  rw [merge_of_conforms (a.conforms_chunks (Assembler.draws_of_portrays each)), stacks_of_portrays each]
  exact ⟨_, rfl⟩

theorem laidOut_merge (fine : a.Fine) (room : (events.map a.vertices).sum ≤ 2 ^ 32)
    (each : List.Forall₂ a.Portrays events chunks) :
    ∃ m, merge chunks (some staticSchema) = .ok m ∧ m.LaidOut a events := by
  have conform := a.conforms_chunks (Assembler.draws_of_portrays each)
  have positions (event : Event α) (c : Chunk α) (shows : a.Portrays event c) : c.positions.length = a.vertices event :=
    shows.shaped.vertices
  have normals (event : Event α) (c : Chunk α) (shows : a.Portrays event c) : c.normals.length = a.vertices event :=
    (a.conforms_chunk shows.made).normals.trans shows.shaped.vertices
  have thick (event : Event α) (c : Chunk α) (shows : a.Portrays event c) :
      (c.items "branch_radius").length = a.vertices event := by
    rw [shows.radius, List.length_replicate]
  have size := Assembler.length_flatMap positions each
  rw [merge_of_conforms conform, stacks_of_portrays each]
  refine ⟨_, rfl, size, ?_, ?_, rfl, ?_, ?_, ?_⟩
  · rw [triangleCount, Faces.rowCount, List.length_map, a.length_rowsFrom]
  · intro k event placed
    obtain ⟨c, drawn, shows, same⟩ := Assembler.block_flatMap positions each placed
    obtain ⟨other, again, -, leaning⟩ := Assembler.block_flatMap normals each placed
    rw [drawn, Option.some.injEq] at again
    subst again
    refine ⟨?_, c, shows.made, same, leaning⟩
    rw [vertexCount, size]
    exact a.offset_add_le placed
  · intro t member
    obtain ⟨row, own, rfl⟩ := List.mem_map.mp member
    obtain ⟨k, event, placed, within⟩ := Assembler.within_of_mem_rowsFrom (a.within_rows fine) own
    rw [Nat.zero_add] at within
    have bound := a.offset_add_le placed
    refine ⟨k, event, placed, ?_⟩
    rwa [Triangle.toNat_ofNat within (by omega)]
  · refine ⟨_, rfl, rfl, ?_, ?_⟩
    · rw [vertexCount, size]
      exact Assembler.length_flatMap thick each
    · intro k event placed
      obtain ⟨c, -, shows, same⟩ := Assembler.block_flatMap thick each placed
      exact same.trans shows.radius
  · refine ⟨_, rfl, rfl, ?_⟩
    have heights : ∀ c ∈ chunks, c.items "vertex_height" = c.positions.map fun p => .real p.y := by
      intro c member
      obtain ⟨event, -, shows⟩ := Outcome.related_of_mem each member
      exact shows.height
    rw [List.map_flatMap]
    exact List.flatMap_congr heights

end Mesh

end Arbor
