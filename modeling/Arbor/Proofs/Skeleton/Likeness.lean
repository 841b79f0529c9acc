import Arbor.Proofs.Mesh.Likeness
import Arbor.Proofs.Skeleton.Carried

namespace Arbor

namespace Likeness

section

variable {α : Type} (l : Likeness α)

def bone (b : Bone α) : Bone α :=
  { b with head := l.point b.head, offset := l.way b.offset, radius := l.length b.radius }

def skeleton (s : Skeleton α) : Skeleton α where
  bones := s.bones.map l.bone
  ordered := by
    intro b member
    rw [Array.toList_map] at member
    obtain ⟨old, own, rfl⟩ := List.mem_map.mp member
    exact s.ordered old own

theorem size_skeleton (s : Skeleton α) : (l.skeleton s).size = s.size := Array.size_map

theorem getElem?_skeleton {s : Skeleton α} {i : Nat} {b : Bone α} (found : s.bones[i]? = some b) :
    (l.skeleton s).bones[i]? = some (l.bone b) := by
  rw [skeleton, Array.getElem?_map, found, Option.map_some]

theorem parent?_skeleton (s : Skeleton α) (i : Nat) : (l.skeleton s).parent? i = s.parent? i := by
  rw [Skeleton.parent?, skeleton, Array.getElem?_map, Skeleton.parent?]
  cases s.bones[i]? <;> rfl

theorem inPlace_skeleton {s : Skeleton α} (inPlace : s.InPlace) : (l.skeleton s).InPlace := by
  intro i b found
  rw [skeleton, Array.getElem?_map] at found
  obtain ⟨old, own, rfl⟩ := Option.map_eq_some_iff.mp found
  exact inPlace i old own

theorem owner_event (event : Event α) : (l.event event).owner = event.owner := by cases event <;> rfl

theorem numbered_map_event {count : Nat} {events : List (Event α)} (numbered : Numbered count events) :
    Numbered count (events.map l.event) := by
  induction events generalizing count with
  | nil => exact numbered
  | cons event events ih =>
      cases event with
      | segment s => exact ⟨numbered.1, numbered.2.1, ih numbered.2.2⟩
      | leaf f => exact ⟨numbered.1, ih numbered.2⟩

theorem column_of_ne {name : Text} (radius : name ≠ "branch_radius") (height : name ≠ "vertex_height") (c : Column α) :
    l.column name c = c := by
  have kept (item : Item α) : l.item name item = item := by
    cases item <;> simp [Likeness.item, measure, radius, height]
  rw [column, List.map_congr_left fun item _ => kept item, List.map_id']

theorem column?_mesh_of_ne {name : Text} (radius : name ≠ "branch_radius") (height : name ≠ "vertex_height")
    (m : Mesh α) : (l.mesh m).column? name = m.column? name := by
  rw [column?_mesh]
  cases m.column? name with
  | none => rfl
  | some column => exact congrArg some (l.column_of_ne radius height column)

theorem vertexCount_mesh (m : Mesh α) : (l.mesh m).vertexCount = m.vertexCount := List.length_map _

theorem skinned_mesh {m : Mesh α} {size : Nat} {owners weights : Column α}
    (skinned : m.Skinned size owners weights) : (l.mesh m).Skinned size owners weights where
  owned := (l.column?_mesh_of_ne (by decide) (by decide) m).trans skinned.owned
  weighed := (l.column?_mesh_of_ne (by decide) (by decide) m).trans skinned.weighed
  flat := skinned.flat
  each := skinned.each.trans (l.vertexCount_mesh m).symm
  inside := skinned.inside
  even := skinned.even.trans (l.vertexCount_mesh m).symm

theorem chunk_bound [Scalar α] (c : Chunk α) (bone : Nat) : l.chunk (Rig.bound c bone) = Rig.bound (l.chunk c) bone := by
  rw [Rig.bound, Rig.bound, chunk_withAttribute, chunk_withAttribute, l.column_of_ne (by decide) (by decide),
    l.column_of_ne (by decide) (by decide), vertexCount_chunk]

end

namespace Similar

open Skeleton

variable {l : Likeness ℝ} {k : ℝ}

theorem bone_segment (similar : l.Similar k) (s : Segment ℝ) (index : Nat) :
    Rig.bone (l.segment s) index = l.bone (Rig.bone s index) := by
  have offset : (l.segment s).direction = l.way s.direction := similar.sub s.top s.base
  simp only [Rig.bone, bone, offset]
  rfl

theorem bones_start (similar : l.Similar k) (root : Vec3 ℝ) :
    (Rig.start (l.point root)).bones = (Rig.start root).bones.map l.bone := by
  simp [Rig.start, bone, similar.way_zero, similar.length_zero]

theorem sprouted_event (similar : l.Similar k) (bones : Array (Bone ℝ)) (event : Event ℝ) :
    Rig.sprouted (bones.map l.bone) (l.event event) = (Rig.sprouted bones event).map l.bone := by
  cases event with
  | leaf f => rfl
  | segment s =>
      have bone := similar.bone_segment s bones.size
      have children : ((bones.map l.bone).modify (boneOf s.parent) fun b =>
            { b with children := b.children ++ [(bones.size : Int)] }) =
          (bones.modify (boneOf s.parent) fun b => { b with children := b.children ++ [(bones.size : Int)] }).map
            l.bone := by
        refine Array.ext_getElem? fun i => ?_
        rw [Array.getElem?_modify, Array.getElem?_map, Array.getElem?_map, Array.getElem?_modify]
        by_cases here : boneOf s.parent = i
        · rw [if_pos here, if_pos here]
          cases bones[i]? <;> rfl
        · rw [if_neg here, if_neg here]
      simp only [event, Rig.sprouted, Array.size_map, Array.map_push, bone]
      rw [← children]
      rfl

theorem sprouted_events (similar : l.Similar k) (bones : Array (Bone ℝ)) (events : List (Event ℝ)) :
    (events.map l.event).foldl Rig.sprouted (bones.map l.bone) = (events.foldl Rig.sprouted bones).map l.bone := by
  induction events generalizing bones with
  | nil => rfl
  | cons event events ih => rw [List.map_cons, List.foldl_cons, List.foldl_cons, similar.sprouted_event, ih]

theorem dress_event (similar : l.Similar k) (a : Assembler ℝ) (event : Event ℝ) :
    Rig.dress (l.assembler a) (l.event event) = (Rig.dress a event).map l.chunk := by
  rw [Rig.dress, Rig.dress, similar.chunk_event, l.owner_event]
  cases a.chunk event with
  | error fault => rfl
  | ok c =>
      have tied := l.chunk_bound c event.owner
      simp only [Except.map, Outcome.ok_bind, Rig.tie_eq, ← tied]
      split <;> rfl

theorem build_events (similar : l.Similar k) (a : Assembler ℝ) (root : Vec3 ℝ) {events : List (Event ℝ)}
    (numbered : Numbered 0 events) :
    Rig.build (l.assembler a) (l.point root) (events.map l.event) =
      (Rig.build a root events).map fun built => (l.mesh built.1, l.skeleton built.2) := by
  obtain ⟨skeleton, accepted, bones, -⟩ := Rig.accepted_of_numbered root numbered
  have alike := l.numbered_map_event numbered
  obtain ⟨other, accepted', bones', -⟩ := Rig.accepted_of_numbered (l.point root) alike
  have same : other = l.skeleton skeleton :=
    Skeleton.eq_of_bones (by rw [bones', similar.bones_start, similar.sprouted_events, ← bones]; rfl)
  rw [Rig.build_of_numbered _ alike accepted', Rig.build_of_numbered a numbered accepted,
    Outcome.mapM_map (similar.dress_event a)]
  cases made : events.mapM (Rig.dress a) with
  | error fault => rfl
  | ok chunks =>
      obtain ⟨-, plain, drawn, rfl⟩ := Rig.dressed_of_mapM made
      have merged := l.merge_map_chunk (Rig.conforms_dressed (Assembler.draws_of_mapM drawn))
      simp only [Except.map, Outcome.ok_bind, merged]
      cases Mesh.merge (Rig.dressed events plain) (some skinnedSchema) with
      | error fault => rfl
      | ok mesh => simp only [Outcome.ok_bind, Outcome.pure_eq, same]

variable {s : Skeleton ℝ} {rows : List (Vec3 ℝ)}

theorem standing_skeleton (similar : l.Similar k) (inPlace : s.InPlace) {i : Nat} {b : Bone ℝ}
    (found : s.bones[i]? = some b) {m : Mat4 ℝ} (stands : s.standing rows i = .ok m) :
    ∃ turn shift, m = .ofParts turn shift ∧ (l.skeleton s).standing rows i = .ok (.ofParts turn (l.point shift)) := by
  have alike := l.getElem?_skeleton found
  induction i using ascend inPlace generalizing b m with
  | root i parent =>
      have root := (l.parent?_skeleton s i).trans parent
      rw [standing_root parent] at stands
      obtain ⟨row, shift, own, shifted, rfl⟩ := placement_eq_ok_iff.mp stands
      rw [localTranslation_root found parent] at shifted
      cases shifted
      refine ⟨_, _, rfl, ?_⟩
      rw [standing_root root]
      exact placement_eq_ok_iff.mpr ⟨row, _, own, localTranslation_root alike root, rfl⟩
  | grown i p parent ih =>
      have grown := (l.parent?_skeleton s i).trans parent
      have before : p < s.size := Nat.lt_trans (lt_of_parent? inPlace parent) (size_of_parent? parent)
      have above : s.bones[p]? = some s.bones[p] := Array.getElem?_eq_getElem before
      obtain ⟨base, own, first, placed, rfl⟩ := (standing_eq_ok_iff inPlace parent).mp stands
      obtain ⟨turn, shift, rfl, carries⟩ := ih above first (l.getElem?_skeleton above)
      obtain ⟨row, apart, turned, shifted, rfl⟩ := placement_eq_ok_iff.mp placed
      rw [localTranslation_grown found parent above] at shifted
      cases shifted
      have away : (l.bone b).head - (l.bone s.bones[p]).head = (b.head - s.bones[p].head).scale k :=
        (similar.sub _ _).trans (similar.way _)
      have other := localTranslation_grown alike grown (l.getElem?_skeleton above)
      refine ⟨_, _, Mat4.ofParts_mul _ _ _ _, (standing_eq_ok_iff (l.inPlace_skeleton inPlace) grown).mpr
        ⟨_, _, carries, placement_eq_ok_iff.mpr ⟨row, _, turned, other, rfl⟩, ?_⟩⟩
      rw [Mat4.ofParts_mul, away, similar.turned]

theorem apply_point (similar : l.Similar k) (turn : Mat3 ℝ) (shift head p : Vec3 ℝ) :
    (Mat4.ofParts turn (l.point shift) * .translation (-l.point head)).apply (l.point p) =
      l.point ((Mat4.ofParts turn shift * .translation (-head)).apply p) := by
  have goes (shift head p : Vec3 ℝ) :
      (Mat4.ofParts turn shift * .translation (-head)).apply p = turn.apply (p - head) + shift := by
    rw [Mat4.translation, Mat4.mul_ofParts_apply, ← Mat4.translation, Mat4.translation_apply, Vec3.add_neg]
    rfl
  rw [goes, goes, similar.sub, similar.way, similar.turned]

theorem skinning_skeleton (similar : l.Similar k) (inPlace : s.InPlace) (one : rows.length = s.size) :
    ∃ matrices others : Array (Mat4 ℝ), s.skinning (some rows) = .ok matrices ∧
      (l.skeleton s).skinning (some rows) = .ok others ∧ matrices.size = s.size ∧ others.size = s.size ∧
      ∀ c < s.size, ∃ n m, matrices[c]? = some n ∧ others[c]? = some m ∧
        ∀ p, m.apply (l.point p) = l.point (n.apply p) := by
  have size := l.size_skeleton s
  obtain ⟨_, matrices, -, led, full, each⟩ := skinning_of_inPlace inPlace one
  obtain ⟨_, others, -, also, same, alike⟩ := skinning_of_inPlace (l.inPlace_skeleton inPlace) (one.trans size.symm)
  refine ⟨matrices, others, led, also, full, same.trans size, fun c inside => ?_⟩
  have found : s.bones[c]? = some s.bones[c] := Array.getElem?_eq_getElem inside
  obtain ⟨n, stands, -, moves⟩ := each c _ found
  obtain ⟨m, elsewhere, -, carries⟩ := alike c _ (l.getElem?_skeleton found)
  obtain ⟨turn, shift, rfl, placed⟩ := similar.standing_skeleton inPlace found stands
  rw [placed] at elsewhere
  cases elsewhere
  exact ⟨_, _, moves, carries, similar.apply_point turn shift _⟩

theorem skin_rows (similar : l.Similar k) (inPlace : s.InPlace) {m : Mesh ℝ} {owners : Column ℝ}
    (skinned : m.Skinned s.size owners (.constant m.vertexCount 1)) (one : rows.length = s.size) :
    (l.skeleton s).skin (l.mesh m) (some rows) = (s.skin m (some rows)).map (List.map l.point) := by
  have count := l.vertexCount_mesh m
  obtain ⟨matrices, others, led, also, full, same, alike⟩ := similar.skinning_skeleton inPlace one
  obtain ⟨posed, blended, length, moves⟩ := blend_of_skinned skinned full
  obtain ⟨reposed, reblended, relength, follows⟩ := blend_of_skinned (l.skinned_mesh skinned) same
  rw [skin_of_matrices led, skin_of_matrices also, blended, reblended]
  refine congrArg Except.ok (List.ext_getElem? fun v => ?_)
  by_cases inside : v < m.vertexCount
  · have owned : v < owners.wholes.length := skinned.each ▸ inside
    obtain ⟨c, named, there⟩ := skinned.inside owners.wholes[v] (List.getElem_mem owned)
    have owner : owners.wholes[v]? = some (c : Int) := by rw [List.getElem?_eq_getElem owned, named]
    have point : m.positions[v]? = some m.positions[v] := List.getElem?_eq_getElem inside
    have lies : (l.mesh m).positions[v]? = some (l.point m.positions[v]) := by
      rw [mesh, List.getElem?_map, point, Option.map_some]
    have weight : (Column.constant m.vertexCount (1 : ℝ)).reals[v]? = some 1 := Column.getElem?_constant inside 1
    obtain ⟨_, _, here, elsewhere, goes⟩ := alike c there
    rw [follows v c _ _ _ owner elsewhere weight lies, List.getElem?_map, moves v c _ _ _ owner here weight point,
      Option.map_some, Vec3.scale_one, Vec3.scale_one, goes]
  · rw [List.getElem?_eq_none (by omega), List.getElem?_eq_none (by rw [List.length_map]; omega)]

theorem skin_skeleton (similar : l.Similar k) (inPlace : s.InPlace) {m : Mesh ℝ} {owners : Column ℝ}
    (skinned : m.Skinned s.size owners (.constant m.vertexCount 1)) (angles : Option (List (Vec3 ℝ))) :
    (l.skeleton s).skin (l.mesh m) angles = (s.skin m angles).map (List.map l.point) := by
  cases angles with
  | none =>
      rw [skin_congr (skinning_none _), skin_congr (skinning_none s), size_skeleton]
      exact similar.skin_rows inPlace skinned List.length_replicate
  | some rows =>
      by_cases one : rows.length = s.size
      · exact similar.skin_rows inPlace skinned one
      · rw [skin_of_other_length one, skin_of_other_length ((l.size_skeleton s).symm ▸ one)]
        rfl

end Similar

end Likeness

end Arbor
