import Arbor.Proofs.Mesh.Layout
import Arbor.Proofs.Skeleton.Binding
import Arbor.Proofs.Skeleton.Skinning

/-!
# The same tree

The mesh that comes with a skeleton draws the tree that is drawn without one, and every vertex of it hangs on
the bone of its segment.
-/

namespace Arbor

variable {α : Type} [Scalar α]

/-- Two meshes look the same and were measured to be the same. -/
structure Mesh.Redraws (still bending : Mesh α) : Prop where
  positions : bending.positions = still.positions
  normals : bending.normals = still.normals
  faces : bending.faces = still.faces
  radius : ∃ column, still.column? "branch_radius" = some column ∧ bending.column? "branch_radius" = some column
  height : ∃ column, still.column? "vertex_height" = some column ∧ bending.column? "vertex_height" = some column

/-- Each vertex hangs with all of its weight on one bone of a skeleton: the vertices that an event was drawn with,
on the bone that the event follows. -/
structure Mesh.Hangs (a : Assembler α) (events : List (Event α)) (mesh : Mesh α) (skeleton : Skeleton α) :
    Prop where
  weights : mesh.column? "skin_weight" = some (.constant mesh.vertexCount 1)
  bones : ∃ chunks, events.mapM a.chunk = .ok chunks ∧ mesh.positions = chunks.flatMap Chunk.positions ∧
    mesh.column? "skin_index" = some (Rig.owners events chunks)
  inside : ∀ column, mesh.column? "skin_index" = some column →
    ∀ n ∈ column.wholes, 0 ≤ n ∧ n < skeleton.size

namespace Rig

theorem accepted_of_numbered (root : Vec3 α) {events : List (Event α)} (numbered : Numbered 0 events) :
    ∃ skeleton, Skeleton.ofBones (events.foldl sprouted (start root).bones) = .ok skeleton ∧
      skeleton.bones = events.foldl sprouted (start root).bones ∧ Ordered skeleton.bones := by
  have ordered : Ordered (events.foldl sprouted (start root).bones) :=
    ordered_foldl numbered rfl (ordered_start root)
  obtain ⟨skeleton, accepted, bones⟩ := ofBones_of_ordered ordered
  exact ⟨skeleton, accepted, bones, bones ▸ ordered⟩

theorem build_of_numbered (a : Assembler α) {root : Vec3 α} {events : List (Event α)} (numbered : Numbered 0 events)
    {skeleton : Skeleton α} (accepted : Skeleton.ofBones (events.foldl sprouted (start root).bones) = .ok skeleton) :
    build a root events = do
      let chunks ← events.mapM (dress a)
      let mesh ← Mesh.merge chunks (some skinnedSchema)
      return (mesh, skeleton) := by
  rw [build, foldlM_step a numbered (start root) rfl]
  cases events.mapM (dress a) with
  | error fault => rfl
  | ok chunks =>
      have alone : ((start root).chunks ++ chunks).toList = chunks := by
        simp [start]
      simp only [Outcome.ok_bind, Outcome.pure_eq, alone]
      cases Mesh.merge chunks (some skinnedSchema) with
      | error fault => rfl
      | ok mesh => simp only [Outcome.ok_bind, accepted]

theorem build_of_storable (a : Assembler α) {root : Vec3 α} {events : List (Event α)} (numbered : Numbered 0 events)
    (storable : Storable events) {skeleton : Skeleton α}
    (accepted : Skeleton.ofBones (events.foldl sprouted (start root).bones) = .ok skeleton) :
    build a root events = do
      let chunks ← events.mapM a.chunk
      let still ← Mesh.merge chunks (some staticSchema)
      return (carried still (owners events chunks), skeleton) := by
  rw [build_of_numbered a numbered accepted, mapM_dress_of_storable a storable]
  cases made : events.mapM a.chunk with
  | error fault => rfl
  | ok chunks =>
      have merged := merge_dressed (Assembler.draws_of_mapM made)
      simp only [Except.map, Outcome.ok_bind, Outcome.pure_eq, merged]
      cases Mesh.merge chunks (some staticSchema) <;> rfl

theorem exists_of_build {a : Assembler α} {root : Vec3 α} {events : List (Event α)} (numbered : Numbered 0 events)
    {mesh : Mesh α} {s : Skeleton α} (built : build a root events = .ok (mesh, s)) :
    Storable events ∧ s.bones = events.foldl sprouted (start root).bones ∧ Ordered s.bones ∧
      ∃ chunks still, events.mapM a.chunk = .ok chunks ∧ Mesh.merge chunks (some staticSchema) = .ok still ∧
        mesh = carried still (owners events chunks) := by
  obtain ⟨skeleton, accepted, bones, ordered⟩ := accepted_of_numbered root numbered
  have storable : Storable events := by
    rw [build_of_numbered a numbered accepted] at built
    obtain ⟨chunks, made, -⟩ := Outcome.bind_eq_ok built
    exact (dressed_of_mapM made).1
  rw [build_of_storable a numbered storable accepted] at built
  obtain ⟨chunks, made, built⟩ := Outcome.bind_eq_ok built
  obtain ⟨still, merged, built⟩ := Outcome.bind_eq_ok built
  cases built
  exact ⟨storable, bones, ordered, chunks, still, made, merged, rfl⟩

theorem size_of_bones {root : Vec3 α} {events : List (Event α)} {s : Skeleton α}
    (bones : s.bones = events.foldl sprouted (start root).bones) : s.size = (segments events).length + 1 :=
  calc
    s.size = (events.foldl sprouted (start root).bones).size := by rw [Skeleton.size, bones]
    _ = (start root).bones.size + (segments events).length := size_foldl events _
    _ = (segments events).length + 1 := Nat.add_comm 1 _

theorem build_of_overfull {a : Assembler α} (root : Vec3 α) {events : List (Event α)} (numbered : Numbered 0 events)
    (overfull : ¬ Storable events) :
    (∃ fault, build a root events = .error fault) ∧
      ∀ chunks, events.mapM a.chunk = .ok chunks → build a root events = .error .notStorable := by
  constructor
  · cases built : build a root events with
    | error fault => exact ⟨fault, rfl⟩
    | ok rigged => exact absurd (exists_of_build numbered built).1 overfull
  · intro chunks made
    obtain ⟨skeleton, accepted, -⟩ := accepted_of_numbered root numbered
    rw [build_of_numbered a numbered accepted, mapM_dress_of_overfull made overfull]
    rfl

theorem column?_carried (still : Mesh α) (bones : Column α) (name : Text) :
    (carried still bones).column? name = (still.column? name).or
      (Table.get? name [("skin_index", bones), ("skin_weight", .constant still.vertexCount 1)]) :=
  Table.get?_append name _ _

theorem redraws_carried {still : Mesh α} (keys : Table.keys still.attributes = Table.keys staticSchema)
    (bones : Column α) : Mesh.Redraws still (carried still bones) := by
  have kept {name : Text} (member : name ∈ Table.keys staticSchema) :
      ∃ column, still.column? name = some column ∧ (carried still bones).column? name = some column := by
    rw [← keys] at member
    obtain ⟨column, found⟩ := Table.exists_get?_of_mem_keys member
    refine ⟨column, found, ?_⟩
    rw [column?_carried, Mesh.column?, found, Option.some_or]
  exact ⟨rfl, rfl, rfl, kept (by decide), kept (by decide)⟩

theorem column?_carried_of_fresh {still : Mesh α} (keys : Table.keys still.attributes = Table.keys staticSchema)
    (bones : Column α) {name : Text} (fresh : name ∉ Table.keys staticSchema) :
    (carried still bones).column? name =
      Table.get? name [("skin_index", bones), ("skin_weight", .constant still.vertexCount 1)] := by
  rw [← keys] at fresh
  rw [column?_carried, Mesh.column?, Table.get?_eq_none_of_not_mem_keys fresh, Option.none_or]

theorem column?_weight_carried {still : Mesh α} (keys : Table.keys still.attributes = Table.keys staticSchema)
    (bones : Column α) :
    (carried still bones).column? "skin_weight" = some (.constant (carried still bones).vertexCount 1) := by
  rw [column?_carried_of_fresh keys bones (by decide)]
  rfl

theorem column?_index_carried {still : Mesh α} (keys : Table.keys still.attributes = Table.keys staticSchema)
    (bones : Column α) : (carried still bones).column? "skin_index" = some bones := by
  rw [column?_carried_of_fresh keys bones (by decide)]
  rfl

omit [Scalar α] in
theorem wholes_owners (events : List (Event α)) (chunks : List (Chunk α)) :
    (owners events chunks).wholes =
      (events.zip chunks).flatMap fun entry => List.replicate entry.2.vertexCount (entry.1.owner : Int) := by
  rw [Column.wholes, owners, List.filterMap_flatMap]
  congr 1
  funext entry
  exact List.filterMap_replicate_of_some rfl

theorem length_wholes_owners {a : Assembler α} {events : List (Event α)} {chunks : List (Chunk α)}
    (drawn : a.Draws events chunks) :
    (owners events chunks).wholes.length = (chunks.flatMap Chunk.positions).length := by
  rw [wholes_owners]
  induction drawn with
  | nil => rfl
  | cons _ _ ih =>
      rw [List.zip_cons_cons, List.flatMap_cons, List.flatMap_cons, List.length_append, List.length_append, ih,
        List.length_replicate]
      rfl

omit [Scalar α] in
theorem owner_of_mem_wholes {events : List (Event α)} {chunks : List (Chunk α)} {n : Int}
    (member : n ∈ (owners events chunks).wholes) : ∃ event ∈ events, n = event.owner := by
  rw [wholes_owners] at member
  obtain ⟨entry, inside, repeated⟩ := List.mem_flatMap.mp member
  exact ⟨entry.1, (List.of_mem_zip inside).1, List.eq_of_mem_replicate repeated⟩

theorem skinned_carried {a : Assembler α} {events : List (Event α)} {chunks : List (Chunk α)} {still : Mesh α}
    (drawn : a.Draws events chunks) (merged : Mesh.merge chunks (some staticSchema) = .ok still) {size : Nat}
    (inside : ∀ event ∈ events, event.owner < size) :
    (carried still (owners events chunks)).Skinned size (owners events chunks) (.constant still.vertexCount 1) := by
  obtain ⟨positions, keys⟩ := Mesh.positions_keys_of_merge (a.conforms_chunks drawn) merged
  refine ⟨column?_index_carried keys _, column?_weight_carried keys _, rfl, ?_, ?_, ?_⟩
  · rw [length_wholes_owners drawn, ← positions]
    rfl
  · intro n member
    obtain ⟨event, placed, rfl⟩ := owner_of_mem_wholes member
    exact ⟨event.owner, rfl, inside event placed⟩
  · rw [Column.constant, Column.reals_ofReals, List.length_replicate]
    rfl

theorem skin_carried {a : Assembler α} {events : List (Event α)} {chunks : List (Chunk α)} {still : Mesh α}
    (drawn : a.Draws events chunks)
    (merged : Mesh.merge chunks (some staticSchema) = .ok still) {skeleton : Skeleton α}
    (ordered : Ordered skeleton.bones) (inside : ∀ event ∈ events, event.owner < skeleton.size)
    {angles : Option (List (Vec3 α))} (one : ∀ given, angles = some given → given.length = skeleton.size) :
    ∃ posed, skeleton.skin (carried still (owners events chunks)) angles = .ok posed ∧
      posed.length = (carried still (owners events chunks)).vertexCount :=
  Skeleton.skin_of_inPlace (Skeleton.inPlace_of_ordered ordered) (skinned_carried drawn merged inside) one

theorem hangs_carried {a : Assembler α} {events : List (Event α)} {chunks : List (Chunk α)} {still : Mesh α}
    (made : events.mapM a.chunk = .ok chunks) (merged : Mesh.merge chunks (some staticSchema) = .ok still)
    {skeleton : Skeleton α} (inside : ∀ event ∈ events, event.owner < skeleton.size) :
    Mesh.Hangs a events (carried still (owners events chunks)) skeleton := by
  have each := a.conforms_chunks (Assembler.draws_of_mapM made)
  obtain ⟨positions, keys⟩ := Mesh.positions_keys_of_merge each merged
  have owned := column?_index_carried keys (owners events chunks)
  refine ⟨column?_weight_carried keys _, ⟨chunks, made, positions, owned⟩, ?_⟩
  intro column found n member
  rw [owned] at found
  cases found
  obtain ⟨event, placed, rfl⟩ := owner_of_mem_wholes member
  have bound := inside event placed
  omega

end Rig

namespace Gait

/-- As long as the numbers of all bones fit their column, a static and a skinned build over the events of a turtle stop at
the same fault or draw the same mesh. In the skinned mesh every vertex hangs on the bone of its event, so it follows the
skeleton into every pose that has one turn for each bone, and no pose leads to a bone that is not there. From `2 ^ 31`
segments on no skinned build succeeds, and where the static one does it stops at the number of a bone. -/
theorem skinned_draws_static (g : Gait α) (a : Assembler α) (root : Vec3 α) (word : Text) :
    (word.count (.scalar 'f') < 2 ^ 31 →
      match a.assemble (g.events word), Rig.build a root (g.events word) with
      | .error fault, .error other => other = fault
      | .ok still, .ok (bending, skeleton) =>
          Mesh.Redraws still bending ∧ Mesh.Hangs a (g.events word) bending skeleton ∧
            ∀ angles, skeleton.skin bending angles ≠ .error .outOfRange ∧
              ((∀ given, angles = some given → given.length = skeleton.size) →
                ∃ posed, skeleton.skin bending angles = .ok posed ∧ posed.length = bending.vertexCount)
      | _, _ => False) ∧
    (2 ^ 31 ≤ word.count (.scalar 'f') →
      (∃ fault, Rig.build a root (g.events word) = .error fault) ∧
        ∀ still, a.assemble (g.events word) = .ok still → Rig.build a root (g.events word) = .error .notStorable) := by
  have numbered := g.numbered_events word
  rw [← g.length_segments_events]
  constructor
  · intro few
    obtain ⟨skeleton, accepted, bones, ordered⟩ := Rig.accepted_of_numbered root numbered
    have size := Rig.size_of_bones bones
    have inside : ∀ event ∈ g.events word, event.owner < skeleton.size := by
      intro event placed
      have bound := owner_lt_of_numbered numbered event placed
      omega
    -- Both builds make the chunks first and merge them then, so they can only stop together.
    rw [Assembler.assemble, Rig.build_of_storable a numbered ((Rig.storable_iff numbered).mpr few) accepted]
    cases made : (g.events word).mapM a.chunk with
    | error fault => rfl
    | ok chunks =>
        simp only [Outcome.ok_bind]
        cases merged : Mesh.merge chunks (some staticSchema) with
        | error fault => rfl
        | ok still =>
            have drawn := Assembler.draws_of_mapM made
            obtain ⟨-, keys⟩ := Mesh.positions_keys_of_merge (a.conforms_chunks drawn) merged
            refine ⟨Rig.redraws_carried keys _, Rig.hangs_carried made merged inside, ?_⟩
            intro angles
            exact ⟨Skeleton.skin_ne_outOfRange (Rig.skin_carried drawn merged ordered inside) angles,
              Rig.skin_carried drawn merged ordered inside⟩
  · intro many
    have overfull : ¬ Rig.Storable (g.events word) := fun storable =>
      absurd ((Rig.storable_iff numbered).mp storable) (Nat.not_lt.mpr many)
    obtain ⟨stops, named⟩ := Rig.build_of_overfull (a := a) root numbered overfull
    refine ⟨stops, fun still assembled => ?_⟩
    obtain ⟨chunks, made, -⟩ := Outcome.bind_eq_ok assembled
    exact named chunks made

theorem skinned_draws_static_leaves :
    ∃ bending skeleton,
      Rig.build ⟨8, 1, 1⟩ 0 (events (standard : Gait Float) ['l', 'l']) = .ok (bending, skeleton) ∧
        ∃ posed, skeleton.skin bending none = .ok posed ∧ posed.length = bending.vertexCount := by
  have same := (skinned_draws_static (standard : Gait Float) ⟨8, 1, 1⟩ 0 ['l', 'l']).1 (by decide)
  obtain ⟨still, assembled⟩ : ∃ still,
      Assembler.assemble ⟨8, 1, 1⟩ (events (standard : Gait Float) ['l', 'l']) = .ok still := ⟨_, rfl⟩
  rw [assembled] at same
  cases built : Rig.build ⟨8, 1, 1⟩ 0 (events (standard : Gait Float) ['l', 'l']) with
  | error fault =>
      rw [built] at same
      cases same
  | ok rigged =>
      rw [built] at same
      refine ⟨rigged.1, rigged.2, rfl, (same.2.2 none).2 ?_⟩
      intro given named
      cases named

/-- A stem of `2 ^ 31` segments can be drawn without bones, and not with them. -/
theorem tall_stem_without_bones :
    (∃ still, Assembler.assemble ⟨8, 1, 3⟩ (events (standard : Gait Float) (List.replicate (2 ^ 31) 'f')) = .ok still) ∧
      Rig.build ⟨8, 1, 3⟩ 0 (events (standard : Gait Float) (List.replicate (2 ^ 31) 'f')) = .error .notStorable := by
  have fine : (⟨8, 1, 3⟩ : Assembler Float).Fine := ⟨by decide, by decide⟩
  have long : ((standard : Gait Float).length == 0) = false := rfl
  generalize word : (List.replicate (2 ^ 31) 'f' : Text) = stem
  have many : stem.count (.scalar 'f') = 2 ^ 31 := by
    rw [← word]
    exact List.count_replicate_self
  have numbered := (standard : Gait Float).numbered_events stem
  have overfull : ¬ Rig.Storable (events (standard : Gait Float) stem) := by
    rw [Rig.storable_iff numbered, length_segments_events, many]
    exact Nat.lt_irrefl _
  obtain ⟨chunks, made, drawn⟩ : ∃ chunks,
      (events (standard : Gait Float) stem).mapM (Assembler.chunk ⟨8, 1, 3⟩) = .ok chunks ∧
        List.Forall₂ (Assembler.Portrays ⟨8, 1, 3⟩) (events (standard : Gait Float) stem) chunks := by
    apply Outcome.mapM_relates
    intro event member
    refine Assembler.portrays_of_room fine ?_ ?_
    · cases event with
      | segment s => exact (by decide : 4 * 8 + 2 ≤ 2 ^ 32)
      | leaf l => exact (by decide : (3 + 1) ^ 2 ≤ 2 ^ 32)
    · rintro s rfl
      rw [height_of_mem_events _ member]
      exact long
  obtain ⟨still, merged⟩ := Mesh.merge_of_portrays drawn
  refine ⟨⟨still, ?_⟩, (Rig.build_of_overfull 0 numbered overfull).2 chunks made⟩
  rw [Assembler.assemble, made, Outcome.ok_bind, merged]

end Gait

end Arbor
