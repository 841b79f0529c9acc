import Arbor.Proofs.Grammar.Expansion
import Arbor.Proofs.Mesh.Layout
import Arbor.Proofs.Scalar
import Arbor.Proofs.Skeleton.SameTree
import Arbor.Proofs.Tree.Checking
import Arbor.Proofs.Tree.Growing

namespace Arbor

variable {α : Type}

theorem sum_of_kinds {size : Event α → Nat} {segment leaf : Nat} (segmentSize : ∀ s, size (.segment s) = segment)
    (leafSize : ∀ l, size (.leaf l) = leaf) (events : List (Event α)) :
    (events.map size).sum = segment * (segments events).length + leaf * (leaves events).length := by
  induction events with
  | nil => simp [leaves]
  | cons event later ih =>
      rw [List.map_cons, List.sum_cons, ih]
      cases event with
      | segment s =>
          have same : leaves (.segment s :: later) = leaves later := rfl
          rw [segmentSize, segments_cons_segment, List.length_cons, same, Nat.mul_succ]
          omega
      | leaf l =>
          have one : leaves (.leaf l :: later) = l :: leaves later := rfl
          rw [leafSize, segments_cons_leaf, one, List.length_cons, Nat.mul_succ]
          omega

theorem parent_of_numbered {count : Nat} {events : List (Event α)} (numbered : Numbered count events) {k : Nat}
    {s : Segment α} (placed : (segments events)[k]? = some s) : boneOf s.parent ≤ count + k := by
  induction events generalizing count k with
  | nil => cases placed
  | cons event later ih =>
      cases event with
      | leaf l => exact ih numbered.2 placed
      | segment first =>
          cases k with
          | zero =>
              cases placed
              exact numbered.2.1
          | succ k =>
              have bound := ih numbered.2.2 placed
              omega

variable [Scalar α]

theorem Gait.length_leaves_events (g : Gait α) (word : Text) :
    (leaves (g.events word)).length = word.count (.scalar 'l') := by
  have both : ((g.events word).map fun _ => 1).sum = 1 * _ + 1 * _ :=
    sum_of_kinds (fun _ => rfl) (fun _ => rfl) (g.events word)
  rw [List.map_const', List.sum_replicate_nat, g.length_events, g.length_segments_events] at both
  omega

namespace TreeParams

def vertexTotal (p : TreeParams α) (word : Text) : Nat :=
  (4 * p.radialSegments.toNat + 2) * word.count (.scalar 'f') +
    (p.leafSegments.toNat + 1) ^ 2 * word.count (.scalar 'l')

theorem sum_vertices (p : TreeParams α) (place : Vec3 α) (word : Text) :
    (((p.gait place).events word).map p.assembler.vertices).sum = p.vertexTotal word := by
  rw [sum_of_kinds (fun _ => rfl) (fun _ => rfl), Gait.length_segments_events, Gait.length_leaves_events]
  rfl

/-- The vertices of each single segment and of each single leaf of a word can be told apart, and so can its bones. -/
structure Fits (p : TreeParams α) (word : Text) : Prop where
  segment : .scalar 'f' ∈ word → 4 * p.radialSegments.toNat + 2 ≤ 2 ^ 32
  leaf : .scalar 'l' ∈ word → (p.leafSegments.toNat + 1) ^ 2 ≤ 2 ^ 32
  bones : p.mode = .skinned → word.count (.scalar 'f') < 2 ^ 31

/-- A segment has more than one vertex, so the vertices run out before the bones do. -/
theorem fits_of_room {p : TreeParams α} (usable : p.Usable) {word : Text} (room : p.vertexTotal word ≤ 2 ^ 32) :
    p.Fits word := by
  have radial := usable.rings.1
  rw [vertexTotal] at room
  refine ⟨?_, ?_, ?_⟩
  · intro member
    have one := Nat.le_mul_of_pos_right (4 * p.radialSegments.toNat + 2) (List.count_pos_iff.mpr member)
    omega
  · intro member
    have one := Nat.le_mul_of_pos_right ((p.leafSegments.toNat + 1) ^ 2) (List.count_pos_iff.mpr member)
    omega
  · intro _
    have each := Nat.mul_le_mul_right (word.count (.scalar 'f')) (show 14 ≤ 4 * p.radialSegments.toNat + 2 by omega)
    omega

theorem vertices_of_fits {p : TreeParams α} {word : Text} (fits : p.Fits word) (place : Vec3 α) {event : Event α}
    (member : event ∈ (p.gait place).events word) : p.assembler.vertices event ≤ 2 ^ 32 := by
  cases event with
  | segment s =>
      have placed : s ∈ segments ((p.gait place).events word) := List.mem_filterMap.mpr ⟨_, member, rfl⟩
      have drawn := List.length_pos_of_mem placed
      rw [Gait.length_segments_events] at drawn
      exact fits.segment (List.count_pos_iff.mp drawn)
  | leaf l =>
      have placed : l ∈ leaves ((p.gait place).events word) := List.mem_filterMap.mpr ⟨_, member, rfl⟩
      have drawn := List.length_pos_of_mem placed
      rw [Gait.length_leaves_events] at drawn
      exact fits.leaf (List.count_pos_iff.mp drawn)

theorem fine_of_usable {p : TreeParams α} (usable : p.Usable) : p.assembler.Fine := ⟨usable.rings.1, usable.rings.2⟩

theorem tall_of_usable {p : TreeParams α} (usable : p.Usable) (apart : Scalar.PositiveApart α) (place : Vec3 α)
    (word : Text) {s : Segment α} (member : .segment s ∈ (p.gait place).events word) : (s.height == 0) = false := by
  rw [Gait.height_of_mem_events _ member]
  exact apart p.branchLength usable.positive.2.1

theorem portrayed {p : TreeParams α} (usable : p.Usable) (apart : Scalar.PositiveApart α) (place : Vec3 α) {word : Text}
    (fits : p.Fits word) :
    ∃ chunks, ((p.gait place).events word).mapM p.assembler.chunk = .ok chunks ∧
      List.Forall₂ p.assembler.Portrays ((p.gait place).events word) chunks := by
  apply Outcome.mapM_relates
  intro event member
  refine Assembler.portrays_of_room (fine_of_usable usable) (vertices_of_fits fits place member) ?_
  rintro s rfl
  exact tall_of_usable usable apart place word member

end TreeParams

theorem Mesh.LaidOut.of_redraws {a : Assembler α} {events : List (Event α)} {still bending : Mesh α}
    (laid : still.LaidOut a events) (same : Mesh.Redraws still bending) : bending.LaidOut a events := by
  obtain ⟨positions, normals, faces, radius, height⟩ := same
  have count : bending.vertexCount = still.vertexCount := congrArg List.length positions
  obtain ⟨thick, stillThick, bendingThick⟩ := radius
  obtain ⟨high, stillHigh, bendingHigh⟩ := height
  refine ⟨?_, ?_, ?_, ?_, ?_, ?_, ?_⟩
  · rw [count, laid.vertices]
  · rw [triangleCount, faces]
    exact laid.triangles
  · rw [count, positions, normals]
    exact laid.block
  · rw [faces, laid.faces]
  · rw [faces]
    exact laid.within
  · obtain ⟨column, found, rest⟩ := laid.radius
    rw [stillThick, Option.some.injEq] at found
    subst found
    rw [count]
    exact ⟨thick, bendingThick, rest⟩
  · obtain ⟨column, found, rest⟩ := laid.height
    rw [stillHigh, Option.some.injEq] at found
    subst found
    rw [positions]
    exact ⟨high, bendingHigh, rest⟩

theorem Buffers.exists_of_merge {p : TreeParams α} (place : Vec3 α) {events : List (Event α)}
    (numbered : Numbered 0 events) (few : p.mode = .skinned → (segments events).length < 2 ^ 31)
    {chunks : List (Chunk α)} (made : events.mapM p.assembler.chunk = .ok chunks) {still : Mesh α}
    (merged : Mesh.merge chunks (some staticSchema) = .ok still) :
    ∃ buffers, ofEvents p place events = .ok buffers ∧ (buffers.mesh = still ∨ Mesh.Redraws still buffers.mesh) ∧
      (p.mode = .skinned →
        ∃ skeleton, buffers.skeleton = some skeleton ∧ skeleton.size = (segments events).length + 1) := by
  cases mode : p.mode with
  | static =>
      refine ⟨⟨still, none⟩, ?_, .inl rfl, ?_⟩
      · simp only [ofEvents, mode, Assembler.assemble, made, Outcome.ok_bind, merged, Outcome.pure_eq]
      · intro other
        cases other
  | skinned =>
      obtain ⟨skeleton, accepted, bones, -⟩ := Rig.accepted_of_numbered place numbered
      have built := Rig.build_of_storable p.assembler numbered ((Rig.storable_iff numbered).mpr (few mode)) accepted
      rw [made, Outcome.ok_bind, merged, Outcome.ok_bind] at built
      obtain ⟨-, keys⟩ := Mesh.positions_keys_of_merge
        (p.assembler.conforms_chunks (Assembler.draws_of_mapM made)) merged
      refine ⟨⟨_, some skeleton⟩, ?_, .inr (Rig.redraws_carried keys (Rig.owners events chunks)), ?_⟩
      · simp only [ofEvents, mode, built, Outcome.pure_eq, Outcome.ok_bind]
        rfl
      · intro _
        exact ⟨skeleton, rfl, Rig.size_of_bones bones⟩

structure Sound (a : Assembler α) (place : Vec3 α) (events : List (Event α)) : Prop where
  slopes : ∀ s, .segment s ∈ events → ∃ slope, s.frustum.slope = .ok slope
  parents : ∀ (k : Nat) (s : Segment α), (segments events)[k]? = some s → boneOf s.parent < k + 1
  still : ∃ chunks, events.mapM a.chunk = .ok chunks ∧ (∀ c ∈ chunks, c.Conforms staticSchema) ∧
    ∃ faces, Faces.stack? (Chunk.shiftedFaces 0 chunks) = some faces
  bending : ∃ rig, events.foldlM (Rig.step a) (Rig.start place) = .ok rig ∧
    (∀ c ∈ rig.chunks.toList, c.Conforms skinnedSchema) ∧
      ∃ faces, Faces.stack? (Chunk.shiftedFaces 0 rig.chunks.toList) = some faces

theorem sound_of_portrays {a : Assembler α} {place : Vec3 α} {events : List (Event α)} {chunks : List (Chunk α)}
    (numbered : Numbered 0 events) (few : (segments events).length < 2 ^ 31)
    (tall : ∀ s, .segment s ∈ events → (s.height == 0) = false)
    (made : events.mapM a.chunk = .ok chunks) (each : List.Forall₂ a.Portrays events chunks) :
    Sound a place events := by
  have drawn := Assembler.draws_of_portrays each
  have piled := Mesh.stacks_of_portrays each
  refine ⟨?_, ?_, ⟨chunks, made, a.conforms_chunks drawn, _, piled⟩, ?_⟩
  · intro s member
    exact ⟨_, Frustum.slope_of_ne (tall s member)⟩
  · intro k s placed
    have bound := parent_of_numbered numbered placed
    omega
  · have run := Rig.foldlM_step a numbered (Rig.start place) rfl
    rw [Rig.mapM_dress_of_storable a ((Rig.storable_iff numbered).mpr few), made] at run
    have alone : ((Rig.start place).chunks ++ Rig.dressed events chunks).toList = Rig.dressed events chunks := by
      simp [Rig.start]
    refine ⟨_, run, ?_, ?_⟩
    · rw [alone]
      exact Rig.conforms_dressed drawn
    · rw [alone, Rig.shiftedFaces_dressed drawn]
      exact ⟨_, piled⟩

namespace TreeParams

theorem few_of_room {p : TreeParams α} (usable : p.Usable) (place : Vec3 α) {word : Text}
    (room : p.vertexTotal word ≤ 2 ^ 32) : (segments ((p.gait place).events word)).length < 2 ^ 31 := by
  rw [Gait.length_segments_events]
  exact (fits_of_room (p := { p with mode := .skinned }) ⟨usable.finite, usable.position, usable.positive, usable.narrowing,
    usable.rings⟩ room).bones rfl

theorem sound_of_usable {p : TreeParams α} (usable : p.Usable) (apart : Scalar.PositiveApart α) (place : Vec3 α)
    {word : Text} (room : p.vertexTotal word ≤ 2 ^ 32) : Sound p.assembler place ((p.gait place).events word) := by
  obtain ⟨chunks, made, each⟩ := portrayed usable apart place (fits_of_room usable room)
  exact sound_of_portrays ((p.gait place).numbered_events word) (few_of_room usable place room)
    (fun s => tall_of_usable usable apart place word) made each

theorem rig_of_usable {p : TreeParams α} (usable : p.Usable) (apart : Scalar.PositiveApart α) (place : Vec3 α)
    {word : Text} (room : p.vertexTotal word ≤ 2 ^ 32) :
    ∃ mesh s, Rig.build p.assembler place ((p.gait place).events word) = .ok (mesh, s) := by
  have numbered := (p.gait place).numbered_events word
  have storable := (Rig.storable_iff numbered).mpr (few_of_room usable place room)
  obtain ⟨chunks, made, each⟩ := portrayed usable apart place (fits_of_room usable room)
  rw [← p.sum_vertices place] at room
  obtain ⟨still, merged, -⟩ := Mesh.laidOut_merge (fine_of_usable usable) room each
  obtain ⟨skeleton, accepted, -⟩ := Rig.accepted_of_numbered place numbered
  have built := Rig.build_of_storable p.assembler numbered storable accepted
  rw [made, Outcome.ok_bind, merged, Outcome.ok_bind] at built
  exact ⟨_, skeleton, built⟩

theorem buffers_of_usable {p : TreeParams α} (usable : p.Usable) (apart : Scalar.PositiveApart α) (place : Vec3 α)
    {word : Text} (room : p.vertexTotal word ≤ 2 ^ 32) :
    ∃ buffers, Buffers.ofEvents p place ((p.gait place).events word) = .ok buffers ∧
      buffers.mesh.LaidOut p.assembler ((p.gait place).events word) ∧
        (p.mode = .skinned →
          ∃ skeleton, buffers.skeleton = some skeleton ∧ skeleton.size = word.count (.scalar 'f') + 1) := by
  have few := few_of_room usable place room
  obtain ⟨chunks, made, each⟩ := portrayed usable apart place (fits_of_room usable room)
  rw [← p.sum_vertices place] at room
  obtain ⟨still, merged, laid⟩ := Mesh.laidOut_merge (fine_of_usable usable) room each
  obtain ⟨buffers, drawn, same, boned⟩ := Buffers.exists_of_merge place ((p.gait place).numbered_events word)
    (fun _ => few) made merged
  refine ⟨buffers, drawn, ?_, ?_⟩
  · rcases same with rfl | redrawn
    · exact laid
    · exact laid.of_redraws redrawn
  · intro skinned
    obtain ⟨skeleton, found, size⟩ := boned skinned
    rw [Gait.length_segments_events] at size
    exact ⟨skeleton, found, size⟩

end TreeParams

/-- A usable tree is built from every word whose segments and leaves can be drawn one by one and given their bones. -/
theorem Asset.exists_of_fits (apart : Scalar.PositiveApart α) {p : TreeParams α} (usable : p.Usable) {word : Text}
    (fits : p.Fits word) : ∃ a, build p word = .ok a := by
  obtain ⟨place, checked⟩ := TreeParams.validate_eq_ok.mp (TreeParams.usable_iff.mpr usable)
  obtain ⟨chunks, made, each⟩ := TreeParams.portrayed usable apart place fits
  obtain ⟨still, merged⟩ := Mesh.merge_of_portrays each
  obtain ⟨buffers, drawn, -⟩ := Buffers.exists_of_merge place ((p.gait place).numbered_events word)
    (fun skinned => by rw [Gait.length_segments_events]; exact fits.bones skinned) made merged
  rw [Gait.events] at drawn
  rw [build, checked, Outcome.ok_bind, ofWalk, drawn]
  exact ⟨_, rfl⟩

theorem Asset.buildGrammar_natCast {p : TreeParams α} (valid : p.validate = .ok ()) (g : Grammar) (initiator : Text)
    (n : Nat) : buildGrammar p g initiator n = build p (g.expand initiator n) := by
  rw [buildGrammar, valid, Outcome.ok_bind, g.generate_natCast, Outcome.ok_bind]

namespace TreeParams

/-- Whether parameters pass decides whether a tree is built from them: those that do not are what the build reports, as a
parameter unless one of their counts has too many digits to be named, and whoever asked for it keeps what there was. -/
theorem validate_decides_build (apart : Scalar.PositiveApart α) (p : TreeParams α) (word : Text)
    (room : p.validate = .ok () → p.vertexTotal word ≤ 2 ^ 32) :
    (p.validate = .ok () ↔ p.Usable) ∧
      (∀ fault, Asset.build p word = .error fault ↔ p.validate = .error fault) ∧
      (∀ fault, p.validate = .error fault → fault.BlamesParameter [p.radialSegments, p.leafSegments] ∧
        ∀ (s : Session α) (b : Int) (k : Nat), s.builder b = .ok k →
          s.perform (.build b p word) = (s, .error fault)) ∧
      ∀ place, p.checked = .ok place → Sound p.assembler place ((p.gait place).events word) := by
  have passes {place : Vec3 α} (checked : p.checked = .ok place) : p.Usable ∧ p.vertexTotal word ≤ 2 ^ 32 :=
    ⟨(checked_eq_ok.mp checked).2, room (validate_eq_ok.mpr ⟨place, checked⟩)⟩
  have stops (fault : Fault α) : Asset.build p word = .error fault ↔ p.validate = .error fault := by
    rw [validate_eq_error, Asset.build]
    cases checked : p.checked with
    | error other => rw [Outcome.error_bind, Except.error.injEq, Except.error.injEq]
    | ok place =>
        obtain ⟨usable, small⟩ := passes checked
        obtain ⟨buffers, drawn, -⟩ := buffers_of_usable usable apart place small
        rw [Gait.events] at drawn
        simp [Asset.ofWalk, drawn]
  refine ⟨usable_iff, stops, ?_, ?_⟩
  · intro fault stopped
    refine ⟨blamesParameter_of_validate stopped, ?_⟩
    intro s b k found
    have failed := (stops fault).mpr stopped
    simp only [Session.perform, Session.atBuilder, found, failed, Session.keep]
  · intro place checked
    obtain ⟨usable, small⟩ := passes checked
    exact sound_of_usable usable apart place small

theorem validate_decides_build_bough :
    (standard : TreeParams Float).validate = .ok () ∧
      (standard : TreeParams Float).vertexTotal ['f', '[', '+', 'f', ']', 'l'] = 149 ∧
        Sound (assembler (standard : TreeParams Float)) 0
          ((gait (standard : TreeParams Float) 0).events ['f', '[', '+', 'f', ']', 'l']) := by
  have total : (standard : TreeParams Float).vertexTotal ['f', '[', '+', 'f', ']', 'l'] = 149 := by decide
  have decided := validate_decides_build positiveApart_float standard ['f', '[', '+', 'f', ']', 'l']
    fun _ => by rw [total]; decide
  exact ⟨by rfl, total, decided.2.2.2 0 (by rfl)⟩

/-- A number of sides below three that has too many digits is not refused as a parameter. -/
theorem overlong_ring_unnamed :
    ∃ fault, ({ (standard : TreeParams Float) with radialSegments := Decimal.overlong }).validate = .error fault ∧
      fault.kind ≠ .parameter := by
  have few : Decimal.overlong < 3 := Int.lt_trans Decimal.overlong_neg (by decide)
  have usable : (standard : TreeParams Float).Usable := usable_iff.mp (by rfl)
  have unworded : (Fault.tooFewSegments "radial_segments" Decimal.overlong : Fault Float).isWorded = false :=
    Decimal.isWritable_overlong
  refine ⟨_, validate_of_few_segments usable few, ?_⟩
  rw [Fault.kind_of_unworded unworded]
  decide

end TreeParams

end Arbor
