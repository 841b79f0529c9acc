import Arbor.Proofs.Mesh.Assembly
import Arbor.Proofs.Skeleton.Rigging

/-!
# Binding

Chunks bound to bones keep their shape and what they were measured at, so they merge into the mesh that they
make unbound, with two more columns.
-/

namespace Arbor

namespace Rig

variable {α : Type} [Scalar α]

theorem conforms_bound {c : Chunk α} (conforms : c.Conforms staticSchema) (bone : Nat) :
    (bound c bone).Conforms skinnedSchema := by
  have index : ("skin_index" : Text) ∉ Table.keys staticSchema := by decide
  have weight : ("skin_weight" : Text) ∉ Table.keys (staticSchema ++ [(("skin_index" : Text), Dtype.signed)]) := by
    decide
  have owned := conforms.withAttribute "skin_index" ⟨.signed, [], List.replicate c.vertexCount (.whole bone)⟩ index rfl
    List.length_replicate
  have weighed := owned.withAttribute "skin_weight" (.constant c.vertexCount 1) weight rfl
    (by simp [Column.constant, Column.ofReals, Chunk.vertexCount, Chunk.withAttribute])
  exact weighed

theorem items_bound {name : Text} (index : "skin_index" ≠ name) (weight : "skin_weight" ≠ name) (c : Chunk α)
    (bone : Nat) : (bound c bone).items name = c.items name := by
  rw [bound, Chunk.items_withAttribute_of_ne _ weight, Chunk.items_withAttribute_of_ne _ index]

theorem items_index_bound (c : Chunk α) (bone : Nat) :
    (bound c bone).items "skin_index" = List.replicate c.vertexCount (.whole bone) := by
  rw [bound, Chunk.items_withAttribute_of_ne _ (by decide), Chunk.items_withAttribute_self]

theorem items_weight_bound (c : Chunk α) (bone : Nat) :
    (bound c bone).items "skin_weight" = c.positions.map fun _ => .real (Scalar.single 1) := by
  rw [bound, Chunk.items_withAttribute_self]
  simp [Column.constant, Column.ofReals, Chunk.vertexCount]

variable {a : Assembler α} {events : List (Event α)} {chunks : List (Chunk α)}

theorem conforms_dressed (drawn : a.Draws events chunks) :
    ∀ c ∈ dressed events chunks, c.Conforms skinnedSchema := by
  induction drawn with
  | nil =>
      intro c member
      cases member
  | @cons event first events rest made _ ih =>
      intro c member
      rcases List.mem_cons.mp member with rfl | inside
      · exact conforms_bound (a.conforms_chunk made) event.owner
      · exact ih c inside

theorem flatMap_dressed {β : Type} (part : Chunk α → List β) (kept : ∀ c bone, part (bound c bone) = part c)
    (drawn : a.Draws events chunks) :
    (dressed events chunks).flatMap part = chunks.flatMap part := by
  induction drawn with
  | nil => rfl
  | @cons event first events rest _ _ ih =>
      rw [dressed] at ih
      simp only [dressed, List.zipWith_cons_cons, List.flatMap_cons, kept, ih]

theorem shiftedFaces_dressed (drawn : a.Draws events chunks)
    (offset : Nat) : Chunk.shiftedFaces offset (dressed events chunks) = Chunk.shiftedFaces offset chunks := by
  induction drawn generalizing offset with
  | nil => rfl
  | @cons event first events rest _ _ ih =>
      exact congrArg (first.faces.shifted offset :: ·) (ih (offset + first.vertexCount))

def owners (events : List (Event α)) (chunks : List (Chunk α)) : Column α :=
  ⟨.signed, [], (events.zip chunks).flatMap fun entry => List.replicate entry.2.vertexCount (.whole entry.1.owner)⟩

theorem items_index_dressed (drawn : a.Draws events chunks) :
    (dressed events chunks).flatMap (·.items "skin_index") = (owners events chunks).items := by
  induction drawn with
  | nil => rfl
  | @cons event first events rest _ _ ih =>
      rw [dressed, owners] at ih
      simp only [dressed, owners, List.zipWith_cons_cons, List.zip_cons_cons, List.flatMap_cons, items_index_bound, ih]

theorem items_weight_dressed (drawn : a.Draws events chunks) :
    (dressed events chunks).flatMap (·.items "skin_weight") =
      (Column.constant (chunks.flatMap Chunk.positions).length (1 : α)).items := by
  induction drawn with
  | nil => rfl
  | @cons event first events rest _ _ ih =>
      rw [dressed] at ih
      simp only [dressed, List.zipWith_cons_cons, List.flatMap_cons, items_weight_bound, ih]
      simp [Column.constant, Column.ofReals]

def carried (still : Mesh α) (bones : Column α) : Mesh α :=
  let columns : Table Text (Column α) :=
    [("skin_index", bones), ("skin_weight", .constant still.vertexCount 1)]
  { still with attributes := still.attributes ++ columns }

/-- Bound chunks merge exactly when they merge unbound, and into the same mesh. -/
theorem merge_dressed (drawn : a.Draws events chunks) :
    Mesh.merge (dressed events chunks) (some skinnedSchema) = do
      let still ← Mesh.merge chunks (some staticSchema)
      return carried still (owners events chunks) := by
  rw [Mesh.merge_of_conforms (conforms_dressed drawn), Mesh.merge_of_conforms (a.conforms_chunks drawn),
    shiftedFaces_dressed drawn]
  cases Faces.stack? (Chunk.shiftedFaces 0 chunks) with
  | none => rfl
  | some faces =>
      have positions := flatMap_dressed Chunk.positions (fun _ _ => rfl) drawn
      have normals := flatMap_dressed Chunk.normals (fun _ _ => rfl) drawn
      have radius := flatMap_dressed (·.items "branch_radius")
        (items_bound (by decide) (by decide)) drawn
      have height := flatMap_dressed (·.items "vertex_height")
        (items_bound (by decide) (by decide)) drawn
      simp only [positions, normals, Outcome.ok_bind, Outcome.pure_eq, carried, skinnedSchema, staticSchema,
        List.map_append, List.map_cons, List.map_nil, radius, height, items_index_dressed drawn,
        items_weight_dressed drawn]
      rfl

end Rig

end Arbor
