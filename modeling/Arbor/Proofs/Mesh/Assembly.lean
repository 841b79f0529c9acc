import Arbor.Mesh.Assembler
import Arbor.Proofs.Mesh.Conforming

namespace Arbor

variable {α : Type} [Scalar α]

omit [Scalar α] in
theorem Chunk.conforms_plain {c : Chunk α} (attributes : c.attributes = [])
    (normals : c.normals.length = c.vertexCount) : c.Conforms [] where
  names := by
    intro name
    rw [attributes]
    exact Iff.rfl
  normals := normals
  columns := by
    intro entry member
    rw [attributes] at member
    cases member

theorem Frustum.conforms_chunk {f : Frustum α} {count : Int} {c : Chunk α}
    (made : f.chunk count = .ok c) : c.Conforms [] := by
  obtain ⟨n, -, made⟩ := Outcome.bind_eq_ok made
  obtain ⟨slope, -, made⟩ := Outcome.bind_eq_ok made
  cases made
  apply Chunk.conforms_plain rfl
  simp [Chunk.vertexCount, localNormals, localPositions, sideNormals, ring]
  omega

theorem Ball.conforms_chunk {b : Ball α} {segments rings : Int} {c : Chunk α}
    (made : b.chunk segments rings = .ok c) : c.Conforms [] := by
  obtain ⟨rows, -, made⟩ := Outcome.bind_eq_ok made
  obtain ⟨columns, -, made⟩ := Outcome.bind_eq_ok made
  obtain ⟨_, -, made⟩ := Outcome.bind_eq_ok made
  cases made
  apply Chunk.conforms_plain rfl
  simp [Chunk.vertexCount]

namespace Assembler

theorem conforms_measured {c : Chunk α} (plain : c.Conforms []) (radius : α) :
    (measured c radius).Conforms staticSchema := by
  have thick := plain.withAttribute "branch_radius" (.constant c.vertexCount radius) List.not_mem_nil rfl
    (by simp [Column.constant, Column.ofReals])
  have fresh : ("vertex_height" : Text) ∉ Table.keys ([("branch_radius", .single)] : Schema) := by decide
  exact thick.withAttribute "vertex_height" (.ofReals .single (c.positions.map Vec3.y)) fresh rfl
    (by simp [Column.ofReals, Chunk.vertexCount, Chunk.withAttribute])

theorem conforms_chunk (a : Assembler α) {event : Event α} {c : Chunk α}
    (made : a.chunk event = .ok c) : c.Conforms staticSchema := by
  cases event with
  | segment s =>
      obtain ⟨plain, drawn, same⟩ := Outcome.bind_eq_ok made
      cases same
      exact conforms_measured (Frustum.conforms_chunk drawn) s.baseRadius
  | leaf l =>
      obtain ⟨plain, drawn, same⟩ := Outcome.bind_eq_ok made
      cases same
      exact conforms_measured (Ball.conforms_chunk drawn) l.radius

/-- Chunks that are the geometry of events, one after another. -/
abbrev Draws (a : Assembler α) : List (Event α) → List (Chunk α) → Prop :=
  List.Forall₂ fun event c => a.chunk event = .ok c

theorem draws_of_mapM {a : Assembler α} {events : List (Event α)} {chunks : List (Chunk α)}
    (made : events.mapM a.chunk = .ok chunks) : a.Draws events chunks :=
  Outcome.forall₂_of_mapM made

theorem conforms_chunks (a : Assembler α) {events : List (Event α)} {chunks : List (Chunk α)}
    (drawn : a.Draws events chunks) :
    ∀ c ∈ chunks, c.Conforms staticSchema := by
  intro c member
  obtain ⟨event, -, made⟩ := Outcome.related_of_mem drawn member
  exact a.conforms_chunk made

end Assembler

end Arbor
