import Arbor.Proofs.Skeleton.SameTree

namespace Arbor

namespace Rig

variable {α : Type} [Scalar α]

structure Sound (r : Rig α) : Prop where
  ordered : Ordered r.bones
  chunks : ∀ c ∈ r.chunks.toList, ∃ plain bone, plain.Conforms staticSchema ∧ c = bound plain bone

theorem sound_start (position : Vec3 α) : Sound (start position) where
  ordered := ordered_start position
  chunks := fun _ member => nomatch member

theorem sound_step (a : Assembler α) {r next : Rig α} {event : Event α} (sound : Sound r)
    (run : step a r event = .ok next) : Sound next := by
  have pushed {plain c : Chunk α} (made : a.chunk event = .ok plain) {bone : Nat} (tied : tie plain bone = .ok c) :
      ∀ c' ∈ (r.chunks.push c).toList, ∃ plain bone, plain.Conforms staticSchema ∧ c' = bound plain bone := by
    intro c' member
    rw [Array.toList_push] at member
    rcases List.mem_append.mp member with old | new
    · exact sound.chunks c' old
    · exact ⟨plain, bone, a.conforms_chunk made, (List.mem_singleton.mp new).trans (tie_eq_ok tied).2⟩
  cases event with
  | segment s =>
      obtain ⟨grown, grew, rest⟩ := Outcome.bind_eq_ok run
      obtain ⟨plain, made, rest⟩ := Outcome.bind_eq_ok rest
      obtain ⟨c, tied, same⟩ := Outcome.bind_eq_ok rest
      cases same
      by_cases parent : boneOf s.parent < r.bones.size
      · rw [grow, if_pos parent] at grew
        cases grew
        exact ⟨ordered_sprouted_segment sound.ordered parent, pushed made tied⟩
      · rw [grow, if_neg parent] at grew
        cases grew
  | leaf l =>
      obtain ⟨plain, made, rest⟩ := Outcome.bind_eq_ok run
      obtain ⟨c, tied, same⟩ := Outcome.bind_eq_ok rest
      cases same
      exact ⟨sound.ordered, pushed made tied⟩

theorem index_of_bound {chunks : List (Chunk α)}
    (each : ∀ c ∈ chunks, ∃ plain bone, Chunk.Conforms staticSchema plain ∧ c = bound plain bone) :
    ((chunks.flatMap fun c => c.items "skin_index").filterMap Item.whole?).length =
      (chunks.flatMap Chunk.positions).length := by
  induction chunks with
  | nil => rfl
  | cons c rest ih =>
      obtain ⟨plain, bone, -, rfl⟩ := each c List.mem_cons_self
      have later := ih fun other member => each other (List.mem_cons_of_mem _ member)
      have own : ((bound plain bone).items "skin_index").filterMap Item.whole? =
          List.replicate plain.vertexCount (bone : Int) := by
        rw [items_index_bound]
        exact List.filterMap_replicate_of_some rfl
      rw [List.flatMap_cons, List.flatMap_cons, List.filterMap_append, List.length_append, List.length_append, later,
        own, List.length_replicate]
      rfl

theorem weight_of_bound {chunks : List (Chunk α)}
    (each : ∀ c ∈ chunks, ∃ plain bone, Chunk.Conforms staticSchema plain ∧ c = bound plain bone) :
    (chunks.flatMap fun c => c.items "skin_weight") =
      List.replicate (chunks.flatMap Chunk.positions).length (.real (Scalar.single 1)) := by
  induction chunks with
  | nil => rfl
  | cons c rest ih =>
      obtain ⟨plain, bone, -, rfl⟩ := each c List.mem_cons_self
      have later := ih fun other member => each other (List.mem_cons_of_mem _ member)
      rw [List.flatMap_cons, List.flatMap_cons, List.length_append, List.replicate_add, later, items_weight_bound,
        List.map_const']
      rfl

theorem skinned_of_build {a : Assembler α} {root : Vec3 α} {events : List (Event α)} {mesh : Mesh α} {s : Skeleton α}
    (built : build a root events = .ok (mesh, s)) :
    s.InPlace ∧ ∃ owners, mesh.column? "skin_index" = some owners ∧
      ((∀ n ∈ owners.wholes, 0 ≤ n ∧ n < s.size) → mesh.Skinned s.size owners (.constant mesh.vertexCount 1)) := by
  obtain ⟨rig, run, built⟩ := Outcome.bind_eq_ok built
  obtain ⟨merged, gathered, built⟩ := Outcome.bind_eq_ok built
  obtain ⟨skeleton, accepted, same⟩ := Outcome.bind_eq_ok built
  cases same
  have sound := Outcome.foldlM_keeps Sound (fun _ _ _ => sound_step a) (sound_start root) run
  obtain ⟨same, also, bones⟩ := ofBones_of_ordered sound.ordered
  rw [accepted] at also
  cases also
  have conforms : ∀ c ∈ rig.chunks.toList, c.Conforms skinnedSchema := by
    intro c member
    obtain ⟨plain, bone, conforms, rfl⟩ := sound.chunks c member
    exact conforms_bound conforms bone
  rw [Mesh.merge_of_conforms conforms] at gathered
  cases stacked : Faces.stack? (Chunk.shiftedFaces 0 rig.chunks.toList) with
  | none =>
      rw [stacked] at gathered
      cases gathered
  | some faces =>
      rw [stacked] at gathered
      cases gathered
      refine ⟨Skeleton.inPlace_of_ordered (bones ▸ sound.ordered), _, rfl, fun inside => ⟨rfl, ?_, rfl, ?_, ?_, ?_⟩⟩
      · have weights := (weight_of_bound sound.chunks).trans List.map_replicate.symm
        exact congrArg (fun items => some (⟨.single, [], items⟩ : Column α)) weights
      · exact index_of_bound sound.chunks
      · intro n member
        have bound := inside n member
        exact ⟨n.toNat, by omega, by omega⟩
      · rw [Column.constant, Column.reals_ofReals, List.length_replicate]

theorem inside_of_build {a : Assembler α} {root : Vec3 α} {events : List (Event α)} (numbered : Numbered 0 events)
    {mesh : Mesh α} {s : Skeleton α} (built : build a root events = .ok (mesh, s)) :
    ∀ column, mesh.column? "skin_index" = some column → ∀ n ∈ column.wholes, 0 ≤ n ∧ n < s.size := by
  obtain ⟨-, bones, -, chunks, still, made, merged, rfl⟩ := exists_of_build numbered built
  refine (hangs_carried made merged fun event placed => ?_).inside
  have bound := owner_lt_of_numbered numbered event placed
  rw [size_of_bones bones]
  omega

end Rig

end Arbor
