import Arbor.Proofs.Grammar.Counting
import Arbor.Proofs.Tree.Building

/-!
# Forecasts

How large the tree of a grammar becomes is told by its initiator and a power of a matrix, without growing the word: the
numbers of symbols, segments, leaves, vertices and triangles of whatever is built.
-/

namespace Arbor

variable {α : Type} [Scalar α]

theorem Mesh.counts_of_merge {a : Assembler α} {events : List (Event α)} {chunks : List (Chunk α)}
    (each : List.Forall₂ a.Portrays events chunks) {m : Mesh α} (merged : merge chunks (some staticSchema) = .ok m) :
    m.vertexCount = (events.map a.vertices).sum ∧
      m.triangleCount = (events.map fun event => (a.rows event).length).sum := by
  rw [merge_of_conforms (a.conforms_chunks (Assembler.draws_of_portrays each)), stacks_of_portrays each] at merged
  cases merged
  constructor
  · exact Assembler.length_flatMap (fun _ _ shows => shows.shaped.vertices) each
  · rw [triangleCount, Faces.rowCount, List.length_map, a.length_rowsFrom]

theorem Buffers.exists_merge {p : TreeParams α} {place : Vec3 α} {events : List (Event α)}
    (numbered : Numbered 0 events) {b : Buffers α} (drawn : ofEvents p place events = .ok b) :
    ∃ chunks still, events.mapM p.assembler.chunk = .ok chunks ∧ Mesh.merge chunks (some staticSchema) = .ok still ∧
      b.mesh.vertexCount = still.vertexCount ∧ b.mesh.triangleCount = still.triangleCount := by
  cases mode : p.mode with
  | static =>
      simp only [ofEvents, mode] at drawn
      obtain ⟨still, assembled, same⟩ := Outcome.bind_eq_ok drawn
      cases same
      obtain ⟨chunks, made, merged⟩ := Outcome.bind_eq_ok assembled
      exact ⟨chunks, still, made, merged, rfl, rfl⟩
  | skinned =>
      simp only [ofEvents, mode] at drawn
      obtain ⟨rigged, built, same⟩ := Outcome.bind_eq_ok drawn
      cases same
      obtain ⟨-, -, -, chunks, still, made, merged, carried⟩ := Rig.exists_of_build numbered built
      rw [carried]
      exact ⟨chunks, still, made, merged, rfl, rfl⟩

def Grammar.twigs : Text := ['A', 'B', 'f', 'l', '[', ']']

namespace Asset

structure Sized (p : TreeParams α) (symbols segments leaves : Nat) (a : Asset α) : Prop where
  word : a.symbols = symbols
  branches : a.segments = segments
  tips : a.leaves = leaves
  buffers : ∃ mesh, a.mesh? = some mesh ∧
    mesh.vertexCount = (4 * p.radialSegments.toNat + 2) * segments + (p.leafSegments.toNat + 1) ^ 2 * leaves ∧
    mesh.triangleCount =
      4 * p.radialSegments.toNat * segments + 2 * p.leafSegments.toNat * (p.leafSegments.toNat - 1) * leaves

theorem sized_of_build {p : TreeParams α} {word : Text} {a : Asset α} (built : build p word = .ok a) :
    a.Sized p word.length (word.count (.scalar 'f')) (word.count (.scalar 'l')) := by
  obtain ⟨place, checked, made⟩ := Outcome.bind_eq_ok built
  obtain ⟨buffers, drawn, same⟩ := Outcome.bind_eq_ok made
  cases same
  have fine := TreeParams.fine_of_usable (TreeParams.checked_eq_ok.mp checked).2
  have segments := (p.gait place).length_segments_events word
  have leaves := (p.gait place).length_leaves_events word
  obtain ⟨chunks, still, each, merged, vertices, triangles⟩ :=
    Buffers.exists_merge ((p.gait place).numbered_events word) drawn
  have whole : List.Forall₂ p.assembler.Portrays ((p.gait place).events word) chunks :=
    (Assembler.draws_of_mapM each).imp fun _ _ made => Assembler.portrays_of_chunk fine made
  obtain ⟨points, faces⟩ := Mesh.counts_of_merge whole merged
  refine ⟨rfl, segments, leaves, buffers.mesh, rfl, ?_, ?_⟩
  · rw [vertices, points, sum_of_kinds (fun _ => rfl) (fun _ => rfl), segments, leaves]
    rfl
  · rw [triangles, faces, sum_of_kinds (Assembler.length_rows_segment _) (Assembler.length_rows_leaf _), segments,
      leaves]
    rfl

attribute [local instance] CodePoint.fintype

/-- After any number of generations there is of each symbol what a power of the matrix of the productions says, and a
tree that is built from them has the size that follows from these numbers. It is built while its segments and leaves can
be drawn one by one. -/
theorem size_by_power (apart : Scalar.PositiveApart α) (g : Grammar) (initiator : Text) (n : Nat) :
    ∃ word, g.generate (α := α) initiator n = .ok word ∧
      (∀ c, word.count c = ∑ a, initiator.count a * (g.yields id ^ n) a c) ∧
      ∀ p : TreeParams α, p.validate = .ok () →
        (p.Fits word → ∃ a, buildGrammar p g initiator n = .ok a) ∧
        ∀ a, buildGrammar p g initiator n = .ok a →
          a.Sized p (∑ c, g.forecast initiator n c) (g.forecast initiator n (.scalar 'f'))
            (g.forecast initiator n (.scalar 'l')) := by
  refine ⟨_, g.generate_natCast initiator n, g.count_expand initiator n, fun p valid => ?_⟩
  rw [Asset.buildGrammar_natCast valid]
  refine ⟨Asset.exists_of_fits apart (TreeParams.usable_iff.mp valid), fun a built => ?_⟩
  rw [← g.length_expand, ← g.count_expand, ← g.count_expand]
  exact sized_of_build built

theorem size_by_power_forking :
    (TreeParams.standard : TreeParams Float).validate = .ok () ∧
      ∃ (a : Asset Float) (mesh : Mesh Float),
        buildGrammar TreeParams.standard Grammar.forking ['l', 'A', 'B'] (10 : Nat) = .ok a ∧ a.symbols = 4095 ∧
          a.segments = 1023 ∧ a.leaves = 1 ∧ a.mesh? = some mesh ∧ mesh.vertexCount = 34863 ∧
          mesh.triangleCount = 32848 := by
  have valid : (TreeParams.standard : TreeParams Float).validate = .ok () := by rfl
  obtain ⟨word, -, -, trees⟩ := size_by_power positiveApart_float Grammar.forking ['l', 'A', 'B'] 10
  obtain ⟨builds, sizes⟩ := trees TreeParams.standard valid
  obtain ⟨a, built⟩ := builds ⟨fun _ => by decide, fun _ => by decide, fun skinned => nomatch skinned⟩
  have sized := sizes a built
  -- The grammar does not leave its six symbols, so six rows of the matrix are enough.
  have single : Function.Injective Grammar.twigs.get := List.nodup_iff_injective_get.mp (by decide)
  have keeps : Grammar.forking.Keeps Grammar.twigs.get := fun i => by
    refine Grammar.spelled_get ?_
    revert i
    decide
  have spelled : Grammar.Spelled Grammar.twigs.get ['l', 'A', 'B'] := Grammar.spelled_get (by decide)
  have power : Matrix.vecMul (Grammar.tally Grammar.twigs.get ['l', 'A', 'B'])
      (Grammar.forking.yields Grammar.twigs.get ^ 10) = [1024, 1, 1023, 1, 1023, 1023].get := by
    funext j
    revert j
    decide +kernel
  have total := (Grammar.sum_forecast single keeps spelled 10).trans (congrArg (fun v => ∑ j, v j) power)
  have segments : Grammar.forking.forecast ['l', 'A', 'B'] 10 'f' = 1023 :=
    (Grammar.forecast_letter single keeps spelled 10 ⟨2, by decide⟩).trans (congrFun power _)
  have leaves : Grammar.forking.forecast ['l', 'A', 'B'] 10 'l' = 1 :=
    (Grammar.forecast_letter single keeps spelled 10 ⟨3, by decide⟩).trans (congrFun power _)
  obtain ⟨mesh, drawn, vertices, triangles⟩ := sized.buffers
  exact ⟨valid, a, mesh, built, sized.word.trans total, sized.branches.trans segments, sized.tips.trans leaves, drawn,
    vertices.trans (by rw [segments, leaves]; rfl), triangles.trans (by rw [segments, leaves]; rfl)⟩

end Asset

end Arbor
