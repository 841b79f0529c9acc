import Arbor.Proofs.Mesh.Seams
import Arbor.Proofs.Skeleton.Rigidity
import Arbor.Proofs.Tree.Building
import Arbor.Proofs.Tree.Swaying
import Arbor.Proofs.Wind.Pushing

/-!
# Cracks

A tree that sways opens no cracks: vertices that are drawn twice at one place go to one place. In a static tree that is
because they have one height and one radius, and nothing else is looked at; in a skinned tree because they hang on one
bone.
-/

namespace Arbor

variable {α : Type} [Scalar α] {a : Assembler α} {events : List (Event α)} {chunks : List (Chunk α)}
  {pairs : Event α → Nat → Nat → Prop}

structure Mesh.Measured (a : Assembler α) (events : List (Event α)) (m : Mesh α) (radii heights : Column α) :
    Prop where
  thick : m.column? "branch_radius" = some radii
  high : m.column? "vertex_height" = some heights
  each : radii.reals.length = m.vertexCount
  radius : ∀ (k : Nat) event, events[k]? = some event → ∀ i < a.vertices event,
    radii.reals[a.offset events k + i]? = some (Scalar.single event.radius)
  height : heights.reals = m.positions.map Vec3.y

namespace Assembler

theorem measured_of_merge (each : List.Forall₂ a.Portrays events chunks) {m : Mesh α}
    (merged : Mesh.merge chunks (some staticSchema) = .ok m) :
    m.positions = chunks.flatMap Chunk.positions ∧ ∃ radii heights, m.Measured a events radii heights := by
  have radius (event : Event α) (c : Chunk α) (shows : a.Portrays event c) :
      (c.items "branch_radius").filterMap Item.real? = List.replicate (a.vertices event) (Scalar.single event.radius) := by
    rw [shows.radius]
    exact List.filterMap_replicate_of_some rfl
  have sized (event : Event α) (c : Chunk α) (shows : a.Portrays event c) :
      ((c.items "branch_radius").filterMap Item.real?).length = a.vertices event := by
    rw [radius event c shows, List.length_replicate]
  have heights : ∀ c ∈ chunks, (c.items "vertex_height").filterMap Item.real? = c.positions.map Vec3.y := by
    intro c member
    obtain ⟨event, -, shows⟩ := Outcome.related_of_mem each member
    rw [shows.height, List.filterMap_map, ← List.filterMap_eq_map]
    rfl
  rw [Mesh.merge_of_conforms (a.conforms_chunks (draws_of_portrays each)), Mesh.stacks_of_portrays each] at merged
  cases merged
  refine ⟨rfl, _, _, rfl, rfl, ?_, ?_, ?_⟩
  · rw [Column.reals, List.filterMap_flatMap, length_flatMap sized each]
    exact (length_flatMap (fun _ _ shows => shows.shaped.vertices) each).symm
  · intro k event placed i inside
    obtain ⟨c, -, shows, same⟩ := getElem?_flatMap sized each placed
    rw [Column.reals, List.filterMap_flatMap, same i inside, radius event c shows]
    exact List.getElem?_replicate_of_lt inside
  · rw [Column.reals, List.filterMap_flatMap, List.map_flatMap]
    exact List.flatMap_congr heights

theorem getElem?_owners (each : List.Forall₂ a.Portrays events chunks) {k : Nat} {event : Event α}
    (placed : events[k]? = some event) {i : Nat} (inside : i < a.vertices event) :
    (Rig.owners events chunks).wholes[a.offset events k + i]? = some (event.owner : Int) := by
  obtain ⟨c, drawn, -⟩ := getElem?_flatMap (fun _ _ shows => shows.shaped.vertices) each placed
  have before : Blocks.before (fun entry => a.vertices entry.1) (events.zip chunks) k = a.offset events k := by
    have first : ((events.zip chunks).take k).map Prod.fst = events.take k := by
      rw [List.map_take, List.map_fst_zip each.length_eq.le]
    rw [Blocks.before, offset, ← first, List.map_map]
    rfl
  have sized : ∀ entry ∈ events.zip chunks,
      (List.replicate entry.2.vertexCount (entry.1.owner : Int)).length = a.vertices entry.1 := by
    rintro ⟨other, chunk⟩ member
    rw [List.length_replicate]
    exact ((List.forall₂_iff_zip.mp each).2 member).shaped.vertices
  have pair : (events.zip chunks)[k]? = some (event, c) := List.getElem?_zip_eq_some.mpr ⟨placed, drawn⟩
  rw [Rig.wholes_owners, ← before, Blocks.getElem?_flatMap sized pair inside]
  refine List.getElem?_replicate_of_lt ?_
  exact inside.trans_eq (sized _ (List.mem_of_getElem? pair)).symm |>.trans_eq List.length_replicate

end Assembler

/-- Displacements that keep pairs together: vertices with one radius and one height have one displacement. -/
structure Mesh.PushedWhole (m : Mesh α) (together : Nat → Nat → Prop) (radii heights : Column α) (rows : List (Vec3 α)) :
    Prop where
  each : rows.length = m.vertexCount
  alike : ∀ v w : Nat, radii.reals[v]? = radii.reals[w]? → heights.reals[v]? = heights.reals[w]? → rows[v]? = rows[w]?
  whole : ∀ v w, together v w → ∃ p row,
    m.positions[v]? = some p ∧ m.positions[w]? = some p ∧ rows[v]? = some row ∧ rows[w]? = some row

theorem Mesh.pushedWhole_of_offsets {m : Mesh α} {radii heights : Column α} (twins : a.Twins pairs)
    (each : List.Forall₂ a.Portrays events chunks) (positions : m.positions = chunks.flatMap Chunk.positions)
    (measured : m.Measured a events radii heights) {s : VertexSway α} {time : α} {wind : Wind α} {rows : List (Vec3 α)}
    (pushed : s.offsets radii.reals heights.reals time wind = .ok rows) :
    m.PushedWhole (a.Together events pairs) radii heights rows := by
  have same : radii.reals.length = heights.reals.length := by
    rw [measured.each, measured.height, List.length_map]
    rfl
  obtain ⟨along, aside, -, rfl⟩ := VertexSway.exists_axes_of_offsets pushed same
  have alike (v w : Nat) (thick : radii.reals[v]? = radii.reals[w]?) (high : heights.reals[v]? = heights.reals[w]?) :
      (List.zipWith (s.shove time wind along aside) radii.reals heights.reals)[v]? =
        (List.zipWith (s.shove time wind along aside) radii.reals heights.reals)[w]? := by
    rw [List.getElem?_zipWith, List.getElem?_zipWith, thick, high]
  refine ⟨?_, alike, ?_⟩
  · rw [List.length_zipWith, same, Nat.min_self, ← same, measured.each]
  · intro v w together
    obtain ⟨k, event, i, j, p, placed, ⟨first, second⟩, ⟨rfl, rfl⟩, here, there⟩ :=
      Assembler.exists_of_together twins each together
    rw [← positions] at here there
    have thick := measured.radius k event placed
    have high {u : Nat} (point : m.positions[u]? = some p) : heights.reals[u]? = some p.y := by
      rw [measured.height, List.getElem?_map, point, Option.map_some]
    have pushed {u : Nat} (radius : radii.reals[u]? = some (Scalar.single event.radius))
        (point : m.positions[u]? = some p) :
        (List.zipWith (s.shove time wind along aside) radii.reals heights.reals)[u]? =
          some (s.shove time wind along aside (Scalar.single event.radius) p.y) :=
      List.getElem?_zipWith_eq_some.mpr ⟨_, _, radius, high point, rfl⟩
    exact ⟨p, _, here, there, pushed (thick i first) here, pushed (thick j second) there⟩

theorem Skeleton.whole_of_skinned {s : Skeleton α} (inPlace : s.InPlace) (twins : a.Twins pairs)
    (each : List.Forall₂ a.Portrays events chunks) {m : Mesh α} (positions : m.positions = chunks.flatMap Chunk.positions)
    (skinned : m.Skinned s.size (Rig.owners events chunks) (.constant m.vertexCount 1)) {angles : Option (List (Vec3 α))}
    (one : ∀ given, angles = some given → given.length = s.size) :
    ∃ posed, s.skin m angles = .ok posed ∧ posed.length = m.vertexCount ∧
      ∀ v w, a.Together events pairs v w → ∃ p, posed[v]? = some p ∧ posed[w]? = some p := by
  obtain ⟨rows, length, same⟩ := s.exists_rows one
  obtain ⟨world, matrices, -, led, size, -⟩ := skinning_of_inPlace inPlace length
  obtain ⟨posed, blended, count, moves⟩ := blend_of_skinned skinned size
  refine ⟨posed, (skin_of_matrices (same.trans led)).trans blended, count, ?_⟩
  intro v w together
  obtain ⟨k, event, i, j, p, placed, ⟨first, second⟩, ⟨rfl, rfl⟩, here, there⟩ :=
    Assembler.exists_of_together twins each together
  rw [← positions] at here there
  have named := Assembler.getElem?_owners each placed first
  have also := Assembler.getElem?_owners each placed second
  obtain ⟨bone, owner, bound⟩ := skinned.inside _ (List.mem_of_getElem? named)
  rw [owner] at named also
  rw [← size] at bound
  have matrix := Array.getElem?_eq_getElem bound
  have weight {u : Nat} {q : Vec3 α} (point : m.positions[u]? = some q) :
      (Column.constant m.vertexCount (1 : α)).reals[u]? = some (Scalar.single 1) :=
    Column.getElem?_constant (List.getElem?_eq_some_iff.mp point).1 1
  exact ⟨_, moves _ _ _ _ _ named matrix (weight here) here, moves _ _ _ _ _ also matrix (weight there) there⟩

namespace Asset

/-- A tree that opens no cracks at pairs of vertices. A static tree sways unless the wind is so faint that it has no
direction; a skinned one follows every pose that has one turn for each bone, and is not moved by any other. -/
structure Uncracked (a : Asset α) (together : Nat → Nat → Prop) : Prop where
  still : a.mode = .static → ∃ mesh radii heights, a.mesh? = some mesh ∧ mesh.column? "branch_radius" = some radii ∧
    mesh.column? "vertex_height" = some heights ∧
    ∀ wind : Wind α, wind.validate = .ok () → ∀ time settings phase,
      (wind.Faint ∧ a.sway time wind settings phase = .error (.windVertical wind.direction)) ∨
        ∃ rows, a.sway time wind settings phase = .ok rows ∧ mesh.PushedWhole together radii heights rows
  bending : a.mode = .skinned → ∃ mesh s, a.mesh? = some mesh ∧ a.skeleton? = some s ∧
    (∀ given, given.length ≠ s.size → s.skin mesh (some given) = .error .shape) ∧
    ∀ angles, (∀ given, angles = some given → given.length = s.size) →
      ∃ posed, s.skin mesh angles = .ok posed ∧ posed.length = mesh.vertexCount ∧
        ∀ v w, together v w → ∃ p, posed[v]? = some p ∧ posed[w]? = some p

theorem uncracked_of_build {p : TreeParams α} {word : Text} {a : Asset α} (built : build p word = .ok a)
    (twins : p.assembler.Twins pairs) {place : Vec3 α} (checked : p.checked = .ok place) :
    a.Uncracked (p.assembler.Together ((p.gait place).events word) pairs) := by
  have numbered := (p.gait place).numbered_events word
  have fine := TreeParams.fine_of_usable (TreeParams.checked_eq_ok.mp checked).2
  have portrayed {chunks : List (Chunk α)} (drawn : ((p.gait place).events word).mapM p.assembler.chunk = .ok chunks) :
      List.Forall₂ p.assembler.Portrays ((p.gait place).events word) chunks :=
    (Assembler.draws_of_mapM drawn).imp fun _ _ made => Assembler.portrays_of_chunk fine made
  constructor
  · intro static
    obtain ⟨other, mesh, also, assembled, held⟩ := assembled_of_build built static
    rw [checked, Except.ok.injEq] at also
    subst also
    obtain ⟨chunks, drawn, merged⟩ := Outcome.bind_eq_ok assembled
    obtain ⟨positions, radii, heights, measured⟩ := Assembler.measured_of_merge (portrayed drawn) merged
    refine ⟨mesh, radii, heights, held, measured.thick, measured.high, ?_⟩
    intro wind valid time settings phase
    have usable := Wind.usable_iff.mp valid
    obtain ⟨same, found, movable⟩ := movable_of_build built
    rw [held, Option.some.injEq] at found
    subst found
    by_cases faint : wind.Faint
    · exact .inl ⟨faint, sway_of_faint held movable usable static faint⟩
    · obtain ⟨rows, swayed, -⟩ := exists_sway_of_still held movable usable static faint
      refine .inr ⟨rows, swayed, ?_⟩
      rw [sway_of_still held usable static measured.thick measured.high] at swayed
      exact Mesh.pushedWhole_of_offsets twins (portrayed drawn) positions measured swayed
  · intro skins
    obtain ⟨other, mesh, s, also, rigged, held, bones⟩ := rig_of_build built skins
    rw [checked, Except.ok.injEq] at also
    subst also
    obtain ⟨-, grown, ordered, chunks, still, drawn, merged, rfl⟩ := Rig.exists_of_build numbered rigged
    have size := Rig.size_of_bones grown
    have draws := Assembler.draws_of_mapM drawn
    have inside : ∀ event ∈ (p.gait place).events word, event.owner < s.size := by
      intro event member
      have bound := owner_lt_of_numbered numbered event member
      omega
    refine ⟨_, s, held, bones, fun given other => Skeleton.skin_of_other_length other, ?_⟩
    intro angles one
    exact Skeleton.whole_of_skinned (Skeleton.inPlace_of_ordered ordered) twins (portrayed drawn)
      (m := Rig.carried still _) (Mesh.positions_keys_of_merge (p.assembler.conforms_chunks draws) merged).1
      (Rig.skinned_carried draws merged inside) one

/-- No built tree opens a crack where it sways or is posed. In any arithmetic the vertices of a ring on the side of a
segment and on its caps stay together, and in exact arithmetic so do those at the seam and at the poles of a leaf. -/
theorem sway_opens_no_cracks :
    (∀ (α : Type) [Scalar α] (p : TreeParams α) (word : Text) (a : Asset α), build p word = .ok a →
      ∃ place, p.checked = .ok place ∧
        a.Uncracked (p.assembler.Together ((p.gait place).events word) p.assembler.Doubled)) ∧
    ∀ (p : TreeParams ℝ) (word : Text) (a : Asset ℝ), build p word = .ok a →
      ∃ place, p.checked = .ok place ∧
        a.Uncracked (p.assembler.Together ((p.gait place).events word) p.assembler.Welded) := by
  constructor
  · intro α _ p word a built
    obtain ⟨place, checked, -⟩ := Outcome.bind_eq_ok built
    have fine := TreeParams.fine_of_usable (TreeParams.checked_eq_ok.mp checked).2
    exact ⟨place, checked, uncracked_of_build built (Assembler.twins_doubled fine) checked⟩
  · intro p word a built
    obtain ⟨place, checked, -⟩ := Outcome.bind_eq_ok built
    have fine := TreeParams.fine_of_usable (TreeParams.checked_eq_ok.mp checked).2
    exact ⟨place, checked, uncracked_of_build built (Assembler.twins_welded fine) checked⟩

theorem sway_opens_no_cracks_sprout :
    (∃ (a : Asset Float) (mesh : Mesh Float) (rows : List (Vec3 Float)) (p row : Vec3 Float),
      build TreeParams.standard ['f', 'l'] = .ok a ∧ a.mesh? = some mesh ∧
        a.sway 1 Wind.standard SwaySettings.standard 0 = .ok rows ∧ mesh.positions[0]? = some p ∧
          mesh.positions[16]? = some p ∧ rows[0]? = some row ∧ rows[16]? = some row) ∧
    ∃ (a : Asset ℝ) (mesh : Mesh ℝ) (s : Skeleton ℝ) (posed : List (Vec3 ℝ)) (p : Vec3 ℝ),
      build TreeParams.sapling ['f', 'l'] = .ok a ∧ a.mesh? = some mesh ∧ a.skeleton? = some s ∧
        s.skin mesh none = .ok posed ∧ posed[43]? = some p ∧ posed[51]? = some p := by
  constructor
  · have usable : (TreeParams.standard : TreeParams Float).Usable := TreeParams.usable_iff.mp (by rfl)
    have fits : (TreeParams.standard : TreeParams Float).Fits ['f', 'l'] :=
      ⟨fun _ => by decide, fun _ => by decide, fun _ => by decide⟩
    obtain ⟨a, made⟩ := exists_of_fits positiveApart_float usable fits
    obtain ⟨place, checked, whole⟩ := sway_opens_no_cracks.1 Float _ _ a made
    obtain ⟨mesh, radii, heights, held, -, -, sways⟩ := whole.still (mode_of_build made)
    rcases sways Wind.standard (by rfl) 1 SwaySettings.standard 0 with ⟨⟨v, found, faint⟩, -⟩ | ⟨rows, swayed, pushed⟩
    · have directed : Wind.checked (Wind.standard : Wind Float) = .ok ⟨1, 0, 0⟩ := by rfl
      rw [directed, Except.ok.injEq] at found
      subst found
      have blows : (Wind.axes (⟨1, 0, 0⟩ : Vec3 Float)).toOption.isSome = true := by decide +kernel
      rw [faint] at blows
      cases blows
    · obtain ⟨p, row, here, there, first, second⟩ := pushed.whole 0 16 ⟨0, _, 0, 16, rfl, .bottom (by decide), rfl, rfl⟩
      exact ⟨a, mesh, rows, p, row, made, held, swayed, here, there, first, second⟩
  · have fits : TreeParams.sapling.Fits ['f', 'l'] :=
      ⟨fun _ => by decide, fun _ => by decide, fun _ => by decide⟩
    obtain ⟨a, made⟩ := exists_of_fits positiveApart_real TreeParams.usable_sapling fits
    obtain ⟨place, checked, whole⟩ := sway_opens_no_cracks.2 _ _ a made
    obtain ⟨mesh, s, held, bones, -, follows⟩ := whole.bending (mode_of_build made)
    obtain ⟨posed, skinned, -, together⟩ := follows none fun given named => by cases named
    have behind : TreeParams.sapling.assembler.offset ((TreeParams.sapling.gait place).events ['f', 'l']) 1 = 34 := rfl
    have ends : TreeParams.sapling.assembler.Together ((TreeParams.sapling.gait place).events ['f', 'l'])
        TreeParams.sapling.assembler.Welded 43 51 :=
      ⟨1, .leaf _, 9, 17, rfl, ⟨by decide, by decide⟩, by rw [behind], by rw [behind]⟩
    obtain ⟨p, first, last⟩ := together 43 51 ends
    exact ⟨a, mesh, s, posed, p, made, held, bones, skinned, first, last⟩

end Asset

end Arbor
