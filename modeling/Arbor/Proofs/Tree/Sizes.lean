import Arbor.Proofs.Tree.Building

namespace Arbor

variable {α : Type} [Scalar α]

namespace Asset

structure Measured (p : TreeParams α) (word : Text) (a : Asset α) (mesh : Mesh α) : Prop where
  segments : a.segments = word.count (.scalar 'f')
  leaves : a.leaves = word.count (.scalar 'l')
  vertices : mesh.vertexCount =
    (4 * p.radialSegments.toNat + 2) * a.segments + (p.leafSegments.toNat + 1) ^ 2 * a.leaves
  triangles : mesh.triangleCount =
    4 * p.radialSegments.toNat * a.segments + 2 * p.leafSegments.toNat * (p.leafSegments.toNat - 1) * a.leaves
  bones : p.mode = .skinned → ∃ skeleton, a.skeleton? = some skeleton ∧ skeleton.size = a.segments + 1

/-- Every tree is as large as its word says, and laid out event by event. -/
theorem tree_laid_out (apart : Scalar.PositiveApart α) {p : TreeParams α} (valid : p.validate = .ok ()) {word : Text}
    (room : p.vertexTotal word ≤ 2 ^ 32) :
    ∃ place a mesh, p.checked = .ok place ∧ build p word = .ok a ∧ a.mesh? = some mesh ∧
      Measured p word a mesh ∧ mesh.LaidOut p.assembler ((p.gait place).events word) := by
  obtain ⟨place, checked⟩ := TreeParams.validate_eq_ok.mp valid
  have usable := (TreeParams.checked_eq_ok.mp checked).2
  obtain ⟨buffers, drawn, laid, boned⟩ := TreeParams.buffers_of_usable usable apart place room
  have segments := (p.gait place).length_segments_events word
  have leaves := (p.gait place).length_leaves_events word
  have built : build p word = .ok {
      params := p
      symbols := word.length
      segments := (Arbor.segments ((p.gait place).events word)).length
      leaves := (Arbor.leaves ((p.gait place).events word)).length
      underflows := ((p.gait place).walk word).turtle.underflows
      buffers := some buffers } := by
    rw [build, checked, Outcome.ok_bind, ofWalk]
    change (Buffers.ofEvents p place ((p.gait place).events word) >>= _) = _
    rw [drawn]
    rfl
  refine ⟨place, _, buffers.mesh, checked, built, rfl, ⟨segments, leaves, ?_, ?_, ?_⟩, laid⟩
  · rw [laid.vertices, sum_of_kinds (fun _ => rfl) (fun _ => rfl)]
    rfl
  · rw [laid.triangles, sum_of_kinds (Assembler.length_rows_segment _) (Assembler.length_rows_leaf _)]
    rfl
  · intro skins
    obtain ⟨skeleton, present, size⟩ := boned skins
    refine ⟨skeleton, present, ?_⟩
    rw [size]
    dsimp only
    rw [segments]

theorem tree_laid_out_bough :
    ∃ a mesh, build { (TreeParams.standard : TreeParams Float) with mode := .skinned } ['f', 'l'] = .ok a ∧
      a.mesh? = some mesh ∧ mesh.vertexCount = 115 ∧ mesh.triangleCount = 144 ∧
        ∃ skeleton, a.skeleton? = some skeleton ∧ skeleton.size = 2 := by
  have total : ({ (TreeParams.standard : TreeParams Float) with mode := .skinned }).vertexTotal ['f', 'l'] = 115 := by
    decide
  obtain ⟨_, a, mesh, -, built, present, measured, -⟩ := tree_laid_out positiveApart_float
    (p := { (TreeParams.standard : TreeParams Float) with mode := .skinned }) (by rfl) (by rw [total]; decide)
  obtain ⟨skeleton, bones, size⟩ := measured.bones rfl
  have segments : a.segments = 1 := measured.segments.trans (by decide)
  have leaves : a.leaves = 1 := measured.leaves.trans (by decide)
  refine ⟨a, mesh, built, present, ?_, ?_, skeleton, bones, ?_⟩
  · rw [measured.vertices, segments, leaves]
    decide
  · rw [measured.triangles, segments, leaves]
    decide
  · rw [size, segments]

end Asset

end Arbor
