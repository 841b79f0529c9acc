import Arbor.Proofs.Mesh.Layout
import Arbor.Proofs.Skeleton.Carried
import Arbor.Proofs.Wind.Checking
import Arbor.Proofs.Wind.Pushing
import Arbor.Tree.Asset

/-!
# Swaying

A tree that has been built sways in every wind that passes, at every time: it gives one displacement for every vertex,
or one turn for every bone, which the skeleton can follow. Only a wind so faint that it has no direction is refused, and
only by a tree without bones.
-/

namespace Arbor

open Outcome

variable {α : Type} [Scalar α]

namespace Assembler

variable {a : Assembler α}

theorem length_reals_of_chunk {event : Event α} {c : Chunk α} (made : a.chunk event = .ok c) {name : Text}
    (known : name ∈ Table.keys staticSchema) : ((c.items name).filterMap Item.real?).length = c.vertexCount := by
  obtain ⟨plain, radius, same⟩ : ∃ plain radius, c = measured plain radius := by
    cases event with
    | segment s =>
        obtain ⟨plain, -, same⟩ := bind_eq_ok made
        cases same
        exact ⟨plain, _, rfl⟩
    | leaf l =>
        obtain ⟨plain, -, same⟩ := bind_eq_ok made
        cases same
        exact ⟨plain, _, rfl⟩
  subst same
  obtain ⟨thick, high⟩ := items_measured (rfl : plain.vertexCount = plain.vertexCount) radius
  have numbers (xs : List α) : (xs.map Item.real).filterMap Item.real? = xs := Column.reals_ofReals .single xs
  rcases List.mem_pair.mp known with rfl | rfl
  · rw [thick, ← List.map_replicate, numbers, List.length_replicate]
    rfl
  · have points := numbers ((measured plain radius).positions.map Vec3.y)
    rw [List.map_map] at points
    rw [high]
    refine (congrArg List.length points).trans ?_
    rw [List.length_map]
    rfl

theorem length_reals_of_assemble {events : List (Event α)} {mesh : Mesh α} (made : a.assemble events = .ok mesh)
    (name : Text) (known : name ∈ Table.keys staticSchema) :
    ∃ column, mesh.column? name = some column ∧ column.reals.length = mesh.vertexCount := by
  obtain ⟨chunks, drawn, merged⟩ := bind_eq_ok made
  have draws := draws_of_mapM drawn
  have each : ∀ c ∈ chunks, ((c.items name).filterMap Item.real?).length = c.positions.length := by
    intro c member
    obtain ⟨event, -, chunk⟩ := related_of_mem draws member
    exact length_reals_of_chunk chunk known
  rw [Mesh.merge_of_conforms (a.conforms_chunks draws)] at merged
  cases stacked : Faces.stack? (Chunk.shiftedFaces 0 chunks) with
  | none =>
      rw [stacked] at merged
      cases merged
  | some faces =>
      rw [stacked] at merged
      cases merged
      have total : ((chunks.flatMap fun c => c.items name).filterMap Item.real?).length =
          (chunks.flatMap Chunk.positions).length := by
        rw [List.filterMap_flatMap, List.length_flatMap, List.length_flatMap]
        exact congrArg List.sum (List.map_congr_left each)
      rcases List.mem_pair.mp known with rfl | rfl
      · exact ⟨_, rfl, total⟩
      · exact ⟨_, rfl, total⟩

end Assembler

namespace Wind

/-- A wind that passes, but so faint that it has no direction. -/
def Faint (w : Wind α) : Prop := ∃ v, w.checked = .ok v ∧ axes v = .error (.windVertical v.toList)

theorem Usable.withNoise {w : Wind α} (usable : w.Usable) (noise : Option α) : (w.withNoise noise).Usable :=
  ⟨usable.finite, usable.horizontal⟩

theorem faint_withNoise {w : Wind α} {noise : Option α} : (w.withNoise noise).Faint ↔ w.Faint := Iff.rfl

theorem axes_or (v : Vec3 α) : (∃ pair, axes v = .ok pair) ∨ axes v = .error (.windVertical v.toList) := by
  rw [axes]
  split
  · exact .inr rfl
  · exact .inl ⟨_, rfl⟩

end Wind

namespace VertexSway

variable {s : VertexSway α} {radii heights : List α} {time : α} {wind : Wind α}

theorem length_offsets (usable : wind.Usable) (blows : ¬ wind.Faint) (same : radii.length = heights.length) :
    ∃ sway, s.offsets radii heights time wind = .ok sway ∧ sway.length = heights.length := by
  obtain ⟨v, checked⟩ := Wind.exists_checked usable
  obtain ⟨pair, directed⟩ := (Wind.axes_or v).resolve_right fun faint => blows ⟨v, checked, faint⟩
  exact ⟨_, offsets_of_axes checked directed same, by rw [List.length_zipWith, same, Nat.min_self]⟩

theorem offsets_of_faint (faint : wind.Faint) (same : radii.length = heights.length) :
    s.offsets radii heights time wind = .error (.windVertical wind.direction) := by
  obtain ⟨v, checked, still⟩ := faint
  rw [offsets, checked, ok_bind, reaches_of_length same, ok_bind, still, (Wind.checked_eq_ok.mp checked).1]
  rfl

end VertexSway

theorem BoneSway.length_turns (s : BoneSway α) (radii : List α) (time phase : α) {wind : Wind α}
    (usable : wind.Usable) : ∃ rows, s.turns radii time wind phase = .ok rows ∧ rows.length = radii.length := by
  obtain ⟨v, checked⟩ := Wind.exists_checked usable
  rw [turns, checked, ok_bind]
  exact ⟨_, rfl, List.length_mapIdx⟩

namespace Asset

variable {a : Asset α}

theorem params_of_build {p : TreeParams α} {word : Text} (built : build p word = .ok a) : a.params = p := by
  obtain ⟨place, -, made⟩ := bind_eq_ok built
  obtain ⟨buffers, -, same⟩ := bind_eq_ok made
  cases same
  rfl

theorem mode_of_build {p : TreeParams α} {word : Text} (built : build p word = .ok a) : a.mode = p.mode := by
  rw [mode, params_of_build built]

theorem assembled_of_build {p : TreeParams α} {word : Text} (built : build p word = .ok a) (still : a.mode = .static) :
    ∃ place mesh, p.checked = .ok place ∧ p.assembler.assemble ((p.gait place).events word) = .ok mesh ∧
      a.mesh? = some mesh := by
  have mode := (mode_of_build built).symm.trans still
  obtain ⟨place, checked, made⟩ := bind_eq_ok built
  obtain ⟨buffers, drawn, same⟩ := bind_eq_ok made
  cases same
  simp only [Buffers.ofEvents, mode] at drawn
  obtain ⟨mesh, assembled, same⟩ := bind_eq_ok drawn
  cases same
  exact ⟨place, mesh, checked, assembled, rfl⟩

theorem rig_of_build {p : TreeParams α} {word : Text} (built : build p word = .ok a) (skins : a.mode = .skinned) :
    ∃ place mesh s, p.checked = .ok place ∧ Rig.build p.assembler place ((p.gait place).events word) = .ok (mesh, s) ∧
      a.mesh? = some mesh ∧ a.skeleton? = some s := by
  have mode := (mode_of_build built).symm.trans skins
  obtain ⟨place, checked, made⟩ := bind_eq_ok built
  obtain ⟨buffers, drawn, same⟩ := bind_eq_ok made
  cases same
  simp only [Buffers.ofEvents, mode] at drawn
  obtain ⟨⟨mesh, s⟩, rigged, same⟩ := bind_eq_ok drawn
  cases same
  exact ⟨place, mesh, s, checked, rigged, rfl, rfl⟩

/-- A tree whose mesh can be moved: by a displacement for every vertex, or by the bones that carry it. -/
inductive Movable (a : Asset α) (mesh : Mesh α) : Prop where
  | still (mode : a.mode = .static) {radii heights : Column α} (thick : mesh.column? "branch_radius" = some radii)
      (high : mesh.column? "vertex_height" = some heights) (radius : radii.reals.length = mesh.vertexCount)
      (height : heights.reals.length = mesh.vertexCount)
  | bending (mode : a.mode = .skinned) {s : Skeleton α} {owners weights : Column α} (bones : a.skeleton? = some s)
      (inPlace : s.InPlace) (skinned : mesh.Skinned s.size owners weights)

theorem movable_of_build {p : TreeParams α} {word : Text} (built : build p word = .ok a) :
    ∃ mesh, a.mesh? = some mesh ∧ a.Movable mesh := by
  obtain ⟨place, checked, made⟩ := bind_eq_ok built
  obtain ⟨buffers, drawn, same⟩ := bind_eq_ok made
  cases same
  refine ⟨buffers.mesh, rfl, ?_⟩
  cases mode : p.mode with
  | static =>
      simp only [Buffers.ofEvents, mode] at drawn
      obtain ⟨mesh, assembled, same⟩ := bind_eq_ok drawn
      cases same
      obtain ⟨radii, thick, radius⟩ := Assembler.length_reals_of_assemble assembled "branch_radius" (by decide)
      obtain ⟨heights, high, height⟩ := Assembler.length_reals_of_assemble assembled "vertex_height" (by decide)
      exact .still mode thick high radius height
  | skinned =>
      simp only [Buffers.ofEvents, mode] at drawn
      obtain ⟨⟨mesh, s⟩, rigged, same⟩ := bind_eq_ok drawn
      cases same
      obtain ⟨inPlace, owners, owned, skinned⟩ := Rig.skinned_of_build rigged
      have numbered := (p.gait place).numbered_events word
      exact .bending mode rfl inPlace (skinned (Rig.inside_of_build numbered rigged owners owned))

variable {mesh : Mesh α} {wind : Wind α} {time phase : α} {settings : SwaySettings α}

omit [Scalar α] in
theorem requireMesh_of_held (held : a.mesh? = some mesh) : a.requireMesh = .ok mesh := by rw [requireMesh, held]

theorem sway_of_still (held : a.mesh? = some mesh) (usable : wind.Usable) (mode : a.mode = .static)
    {radii heights : Column α} (thick : mesh.column? "branch_radius" = some radii)
    (high : mesh.column? "vertex_height" = some heights) :
    a.sway time wind settings phase = settings.vertex.offsets radii.reals heights.reals (time + phase) wind := by
  rw [sway, requireMesh_of_held held, ok_bind, Wind.usable_iff.mpr usable, ok_bind, mode]
  simp only [Mesh.column, thick, high, ok_bind]

theorem sway_of_bending (held : a.mesh? = some mesh) (usable : wind.Usable) (mode : a.mode = .skinned) {s : Skeleton α}
    (bones : a.skeleton? = some s) :
    a.sway time wind settings phase = settings.bone.turns s.radii time wind phase := by
  rw [sway, requireMesh_of_held held, ok_bind, Wind.usable_iff.mpr usable, ok_bind, mode]
  simp only [requireSkeleton, bones, ok_bind]

theorem exists_sway_of_still (held : a.mesh? = some mesh) (movable : a.Movable mesh) (usable : wind.Usable)
    (mode : a.mode = .static) (blows : ¬ wind.Faint) :
    ∃ sway, a.sway time wind settings phase = .ok sway ∧ sway.length = mesh.vertexCount := by
  cases movable with
  | still _ thick high radius height =>
      rw [sway_of_still held usable mode thick high, ← height]
      exact VertexSway.length_offsets usable blows (radius.trans height.symm)
  | bending other =>
      rw [mode] at other
      cases other

theorem exists_sway_of_bending (held : a.mesh? = some mesh) (movable : a.Movable mesh) (usable : wind.Usable)
    (mode : a.mode = .skinned) :
    ∃ s sway posed, a.skeleton? = some s ∧ a.sway time wind settings phase = .ok sway ∧ sway.length = s.size ∧
      s.skin mesh (some sway) = .ok posed ∧ posed.length = mesh.vertexCount := by
  cases movable with
  | still other =>
      rw [mode] at other
      cases other
  | @bending _ s owners weights bones inPlace skinned =>
      obtain ⟨sway, turned, length⟩ := settings.bone.length_turns s.radii time phase usable
      have one : sway.length = s.size := by
        rw [length, Skeleton.radii, List.length_map]
        rfl
      have each : ∀ given, some sway = some given → given.length = s.size := by
        rintro _ ⟨⟩
        exact one
      obtain ⟨posed, followed, counted⟩ := Skeleton.skin_of_inPlace inPlace skinned each
      refine ⟨s, sway, posed, bones, ?_, one, followed, counted⟩
      rw [sway_of_bending held usable mode bones, turned]

theorem sway_of_faint (held : a.mesh? = some mesh) (movable : a.Movable mesh) (usable : wind.Usable)
    (mode : a.mode = .static) (faint : wind.Faint) :
    a.sway time wind settings phase = .error (.windVertical wind.direction) := by
  cases movable with
  | still _ thick high radius height =>
      rw [sway_of_still held usable mode thick high, VertexSway.offsets_of_faint faint (radius.trans height.symm)]
  | bending other =>
      rw [mode] at other
      cases other

/-- The vertices of a tree in the wind of a moment: those of a static one displaced by its sway, those of a skinned one
where the turns of its sway take them. -/
def Shows (a : Asset α) (time : α) (wind : Wind α) (vertices : List (Vec3 α)) : Prop :=
  ∃ mesh sway, a.mesh? = some mesh ∧ a.sway time wind SwaySettings.standard 0 = .ok sway ∧
    vertices.length = mesh.vertexCount ∧
      match a.mode with
      | .static => sway.length = mesh.vertexCount ∧
          vertices = (mesh.positions.zip sway).map fun (p, s) => (p + s).single
      | .skinned => ∃ skeleton posed, a.skeleton? = some skeleton ∧ sway.length = skeleton.size ∧
          skeleton.skin mesh (some sway) = .ok posed ∧ vertices = posed.map Vec3.single

end Asset

end Arbor
