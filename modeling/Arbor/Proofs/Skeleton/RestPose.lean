import Arbor.Proofs.Skeleton.Carried
import Arbor.Proofs.Space.Rotation

namespace Arbor

namespace Skeleton

variable {s : Skeleton ℝ}

theorem placement_rest {i : Nat} (inside : i < s.size) {shift : Vec3 ℝ} (shifted : s.localTranslation i = .ok shift) :
    s.placement (List.replicate s.size 0) i = .ok (.translation shift) := by
  rw [placement_of_row (List.getElem?_replicate_of_lt inside) shifted, Mat3.ofEuler_zero]
  rfl

theorem standing_rest (inPlace : s.InPlace) {i : Nat} {b : Bone ℝ} (found : s.bones[i]? = some b) :
    s.standing (List.replicate s.size 0) i = .ok (.translation b.head) := by
  induction i using ascend inPlace generalizing b with
  | root i parent =>
      have inside : i < s.size := (Array.getElem?_eq_some_iff.mp found).1
      rw [standing_root parent, placement_rest inside (localTranslation_root found parent)]
  | grown i p parent ih =>
      have inside : i < s.size := (Array.getElem?_eq_some_iff.mp found).1
      have before : p < s.size := Nat.lt_trans (lt_of_parent? inPlace parent) inside
      have above : s.bones[p]? = some s.bones[p] := Array.getElem?_eq_getElem before
      -- The shift from the head of the parent, behind the shift to it.
      have back : s.bones[p].head + (b.head - s.bones[p].head) = b.head := by
        ext <;> simp only [Vec3.add_eq, Vec3.sub_eq] <;> ring
      have own := placement_rest inside (localTranslation_grown found parent above)
      refine (standing_eq_ok_iff inPlace parent).mpr ⟨_, _, ih above, own, ?_⟩
      rw [Mat4.translation_mul, back]

theorem world_rest (inPlace : s.InPlace) : s.world none = .ok (s.bones.map fun b => .translation b.head) := by
  have one : (List.replicate s.size (0 : Vec3 ℝ)).length = s.size := List.length_replicate
  obtain ⟨world, there, placed⟩ := world_of_inPlace inPlace one
  rw [world_none, there]
  congr 1
  refine Array.ext (by rw [placed.size, Array.size_map]; rfl) fun i inside _ => ?_
  rw [placed.size] at inside
  obtain ⟨m, stands, found⟩ := placed.stands i inside
  rw [standing_rest inPlace (Array.getElem?_eq_getElem inside)] at stands
  cases stands
  rw [(Array.getElem?_eq_some_iff.mp found).2, Array.getElem_map]
  rfl

theorem skinning_rest (inPlace : s.InPlace) : s.skinning none = .ok (Array.replicate s.size .identity) := by
  have size : (s.bones.map fun b => Mat4.translation b.head).size = s.size := Array.size_map
  obtain ⟨matrices, led, full, each⟩ := skinning_of_world (world_rest inPlace) size
  rw [led]
  congr 1
  refine Array.ext (by rw [full, Array.size_replicate]) fun i inside _ => ?_
  rw [full] at inside
  have bone : s.bones[i]? = some s.bones[i] := Array.getElem?_eq_getElem inside
  have back (head : Vec3 ℝ) : head + -head = 0 := by
    ext <;> simp only [Vec3.add_eq, Vec3.neg_eq, Vec3.zero_eq] <;> ring
  have found := each i _ _ bone (by rw [Array.getElem?_map, bone, Option.map_some])
  rw [Mat4.translation_mul, back] at found
  rw [(Array.getElem?_eq_some_iff.mp found).2, Array.getElem_replicate]
  rfl

theorem skin_rest (inPlace : s.InPlace) {mesh : Mesh ℝ} {owners weights : Column ℝ}
    (skinned : mesh.Skinned s.size owners weights) :
    s.skin mesh none = .ok (List.zipWith Vec3.scale weights.reals mesh.positions) := by
  obtain ⟨posed, blended, length, each⟩ := blend_of_skinned skinned (Array.size_replicate (v := Mat4.identity))
  rw [skin_of_matrices (skinning_rest inPlace), blended]
  congr 1
  have even := skinned.even
  have owned := skinned.each
  have points : mesh.positions.length = mesh.vertexCount := rfl
  refine List.ext_getElem (by rw [List.length_zipWith, length, even, points, Nat.min_self]) fun v inside _ => ?_
  rw [length] at inside
  obtain ⟨c, named, there⟩ := skinned.inside owners.wholes[v] (List.getElem_mem _)
  have found := each v c .identity _ _ (by rw [List.getElem?_eq_getElem (by omega), named])
    (by rw [Array.getElem?_replicate, if_pos there]) (List.getElem?_eq_getElem (by omega))
    (List.getElem?_eq_getElem (by omega))
  rw [Mat4.identity_apply] at found
  rw [(List.getElem?_eq_some_iff.mp found).2, List.getElem_zipWith]

theorem zipWith_scale_one (points : List (Vec3 ℝ)) :
    List.zipWith Vec3.scale (List.replicate points.length 1) points = points := by
  induction points with
  | nil => rfl
  | cons p points ih =>
      have same : p.scale 1 = p := by
        ext <;> simp only [Vec3.scale] <;> ring
      rw [List.length_cons, List.replicate_succ, List.zipWith_cons_cons, same, ih]

theorem skin_rest_of_build {a : Assembler ℝ} {root : Vec3 ℝ} {events : List (Event ℝ)} {mesh : Mesh ℝ}
    (built : Rig.build a root events = .ok (mesh, s))
    (inside : ∀ column, mesh.column? "skin_index" = some column → ∀ n ∈ column.wholes, 0 ≤ n ∧ n < s.size) :
    s.skin mesh none = .ok mesh.positions := by
  obtain ⟨inPlace, owners, owned, skinned⟩ := Rig.skinned_of_build built
  rw [skin_rest inPlace (skinned (inside owners owned)), Column.constant, Column.reals_ofReals]
  exact congrArg Except.ok (zipWith_scale_one mesh.positions)

/-- One pass over the bones places each of them at the product of the placements along its line, the outermost one
first, and a row of angles turns about the first axis, then about the second and then about the third. In exact
arithmetic a skeleton that is not turned stands where its heads are and moves nothing, so a mesh stays as it is but for
its weights, and the mesh that comes with a skeleton stays as it is. -/
theorem forward_kinematics :
    (∀ (α : Type) [Scalar α] (s : Skeleton α) (rows : List (Vec3 α)), s.InPlace → rows.length = s.size →
      ∃ world, s.world (some rows) = .ok world ∧ world.size = s.size ∧
        ∀ i < s.size, ∃ placements, (s.lineage i).mapM (s.placement rows) = .ok placements ∧
          world[i]? = some (.product placements)) ∧
    (∀ angles : Vec3 ℝ, Mat3.ofEuler angles = .aboutZ angles.z * .aboutY angles.y * .aboutX angles.x) ∧
    (∀ s : Skeleton ℝ, s.InPlace →
      s.world none = .ok (s.bones.map fun b => .translation b.head) ∧
      s.skinning none = .ok (Array.replicate s.size .identity) ∧
      ∀ (mesh : Mesh ℝ) (owners weights : Column ℝ), mesh.Skinned s.size owners weights →
        s.skin mesh none = .ok (List.zipWith Vec3.scale weights.reals mesh.positions)) ∧
    (∀ (a : Assembler ℝ) (root : Vec3 ℝ) (events : List (Event ℝ)) (mesh : Mesh ℝ) (s : Skeleton ℝ),
      Rig.build a root events = .ok (mesh, s) →
        (∀ column, mesh.column? "skin_index" = some column → ∀ n ∈ column.wholes, 0 ≤ n ∧ n < s.size) →
          s.skin mesh none = .ok mesh.positions) ∧
    ∀ (g : Gait ℝ) (a : Assembler ℝ) (root : Vec3 ℝ) (word : Text) (mesh : Mesh ℝ) (s : Skeleton ℝ),
      Rig.build a root (g.events word) = .ok (mesh, s) → s.skin mesh none = .ok mesh.positions := by
  refine ⟨?_, Mat3.ofEuler_eq, ?_, ?_, ?_⟩
  · intro α _ s rows inPlace one
    obtain ⟨world, there, placed⟩ := world_of_inPlace inPlace one
    refine ⟨world, there, placed.size, fun i inside => ?_⟩
    obtain ⟨m, stands, found⟩ := placed.stands i inside
    obtain ⟨placements, line, same⟩ := Outcome.bind_eq_ok stands
    cases same
    exact ⟨placements, line, found⟩
  · intro s inPlace
    exact ⟨world_rest inPlace, skinning_rest inPlace, fun mesh owners weights skinned => skin_rest inPlace skinned⟩
  · intro a root events mesh s built inside
    exact skin_rest_of_build built inside
  · intro g a root word mesh s built
    exact skin_rest_of_build built (Rig.inside_of_build (g.numbered_events word) built)

theorem forward_kinematics_joint :
    ((joint : Skeleton Float).InPlace ∧ ∃ world placements,
      (joint : Skeleton Float).world (some [⟨1, 0, 0⟩, ⟨0, 0, 1⟩]) = .ok world ∧
      ((joint : Skeleton Float).lineage 1).mapM ((joint : Skeleton Float).placement [⟨1, 0, 0⟩, ⟨0, 0, 1⟩]) =
        .ok placements ∧
      world[1]? = some (.product placements)) ∧
    ((joint : Skeleton ℝ).InPlace ∧
      (specks : Mesh ℝ).Skinned (joint : Skeleton ℝ).size ⟨.signed, [], [.whole 0, .whole 1]⟩
        (.ofReals .single [1, 1 + 1]) ∧
      (joint : Skeleton ℝ).skin specks none = .ok [Vec3.scale 1 ⟨1, 0, 1⟩, Vec3.scale (1 + 1) Vec3.up]) ∧
    ∃ (mesh : Mesh ℝ) (s : Skeleton ℝ),
      Rig.build ⟨8, 1, 1⟩ 0 (Gait.events (Gait.standard : Gait ℝ) ['l']) = .ok (mesh, s) ∧
        (∀ column, mesh.column? "skin_index" = some column → ∀ n ∈ column.wholes, 0 ≤ n ∧ n < s.size) ∧
        s.skin mesh none = .ok mesh.positions := by
  obtain ⟨pass, -, rest, drawn, -⟩ := forward_kinematics
  refine ⟨⟨inPlace_joint, ?_⟩, ⟨inPlace_joint, skinned_specks, ?_⟩, ?_⟩
  · obtain ⟨world, there, -, each⟩ := pass Float joint [⟨1, 0, 0⟩, ⟨0, 0, 1⟩] inPlace_joint rfl
    obtain ⟨placements, line, found⟩ := each 1 Nat.one_lt_two
    exact ⟨world, placements, there, line, found⟩
  · rw [(rest joint inPlace_joint).2.2 _ _ _ skinned_specks]
    rfl
  · obtain ⟨rigged, built⟩ : ∃ rigged,
        Rig.build ⟨8, 1, 1⟩ 0 (Gait.events (Gait.standard : Gait ℝ) ['l']) = .ok rigged := ⟨_, rfl⟩
    have inside := Rig.inside_of_build (Gait.numbered_events _ _) built
    exact ⟨rigged.1, rigged.2, built, inside, drawn _ _ _ _ _ built inside⟩

end Skeleton

end Arbor
