import Arbor.Proofs.Skeleton.Skinning
import Arbor.Proofs.Space.Rotation

/-!
# Turning one bone

Two poses that differ in the angles of one bone put every bone whose line does not pass through it in the same place,
to the last bit. The other bones move together, as one rigid body about the head of the bone.
-/

namespace Arbor

namespace Skeleton

section
variable {α : Type} [Scalar α] {s : Skeleton α} {b : Nat} {rows others : List (Vec3 α)}

structure Alike (s : Skeleton α) (b : Nat) (rows others : List (Vec3 α)) : Prop where
  one : rows.length = s.size
  other : others.length = s.size
  same : ∀ i, i ≠ b → rows[i]? = others[i]?

theorem placement_of_alike (alike : s.Alike b rows others) {i : Nat} (apart : i ≠ b) :
    s.placement others i = s.placement rows i := by
  have row : others.toArray[i]? = rows.toArray[i]? := by
    rw [List.getElem?_toArray, List.getElem?_toArray, alike.same i apart]
  have size : others.toArray.size = rows.toArray.size := by
    rw [List.size_toArray, List.size_toArray, alike.one, alike.other]
  rw [placement, placement, atPlace_congr size row]

theorem standing_of_alike (inPlace : s.InPlace) (alike : s.Alike b rows others) {c : Nat} (apart : b ∉ s.lineage c) :
    s.standing others c = s.standing rows c := by
  induction c using ascend inPlace with
  | root c parent =>
      rw [lineage_root parent, List.mem_singleton] at apart
      rw [standing_root parent, standing_root parent, placement_of_alike alike (Ne.symm apart)]
  | grown c p parent ih =>
      rw [mem_lineage_grown inPlace parent, not_or] at apart
      rw [standing_grown inPlace parent, standing_grown inPlace parent, ih apart.1,
        placement_of_alike alike (Ne.symm apart.2)]

theorem poses_of_alike (inPlace : s.InPlace) (alike : s.Alike b rows others) :
    ∃ world otherWorld matrices otherMatrices,
      s.world (some rows) = .ok world ∧ s.world (some others) = .ok otherWorld ∧
      s.skinning (some rows) = .ok matrices ∧ s.skinning (some others) = .ok otherMatrices ∧
      matrices.size = s.size ∧ otherMatrices.size = s.size ∧
      ∀ c < s.size, b ∉ s.lineage c → ∃ stands moves,
        world[c]? = some stands ∧ otherWorld[c]? = some stands ∧
        matrices[c]? = some moves ∧ otherMatrices[c]? = some moves := by
  obtain ⟨world, matrices, there, led, size, each⟩ := skinning_of_inPlace inPlace alike.one
  obtain ⟨otherWorld, otherMatrices, otherThere, otherLed, otherSize, otherEach⟩ :=
    skinning_of_inPlace inPlace alike.other
  refine ⟨world, otherWorld, matrices, otherMatrices, there, otherThere, led, otherLed, size, otherSize, ?_⟩
  intro c inside apart
  have found : s.bones[c]? = some s.bones[c] := Array.getElem?_eq_getElem inside
  obtain ⟨m, stands, here, moves⟩ := each c _ found
  obtain ⟨n, otherStands, otherHere, otherMoves⟩ := otherEach c _ found
  rw [standing_of_alike inPlace alike apart, stands] at otherStands
  cases otherStands
  exact ⟨m, _, here, otherHere, moves, otherMoves⟩

theorem skins_of_alike (inPlace : s.InPlace) (alike : s.Alike b rows others) {mesh : Mesh α} {owners weights : Column α}
    (skinned : mesh.Skinned s.size owners weights) :
    ∃ posed otherPosed, s.skin mesh (some rows) = .ok posed ∧ s.skin mesh (some others) = .ok otherPosed ∧
      ∀ v c : Nat, owners.wholes[v]? = some (c : Int) → b ∉ s.lineage c →
        ∃ p, posed[v]? = some p ∧ otherPosed[v]? = some p := by
  obtain ⟨_, _, matrices, otherMatrices, -, -, led, otherLed, size, otherSize, same⟩ :=
    poses_of_alike inPlace alike
  obtain ⟨posed, blended, length, each⟩ := blend_of_skinned skinned size
  obtain ⟨otherPosed, otherBlended, -, otherEach⟩ := blend_of_skinned skinned otherSize
  refine ⟨posed, otherPosed, (skin_of_matrices led).trans blended, (skin_of_matrices otherLed).trans otherBlended, ?_⟩
  intro v c owner apart
  obtain ⟨i, named, inside⟩ := skinned.inside c (List.mem_of_getElem? owner)
  obtain ⟨_, moves, -, -, here, otherHere⟩ := same c (by omega) apart
  have bound : v < mesh.vertexCount := skinned.each ▸ (List.getElem?_eq_some_iff.mp owner).1
  have weighed : v < weights.reals.length := skinned.even ▸ bound
  have weight : weights.reals[v]? = some weights.reals[v] := List.getElem?_eq_getElem weighed
  have point : mesh.positions[v]? = some mesh.positions[v] := List.getElem?_eq_getElem bound
  exact ⟨_, each v c moves _ _ owner here weight point, otherEach v c moves _ _ owner otherHere weight point⟩

end

section
variable {s : Skeleton ℝ} {b : Nat} {rows others : List (Vec3 ℝ)}

theorem isRigid_of_placement {i : Nat} {m : Mat4 ℝ} (placed : s.placement rows i = .ok m) : m.IsRigid := by
  obtain ⟨row, shift, -, -, rfl⟩ := placement_eq_ok_iff.mp placed
  exact ⟨.ofEuler row, shift, Mat3.isRotation_ofEuler row, rfl⟩

theorem isRigid_of_standing (inPlace : s.InPlace) {i : Nat} {m : Mat4 ℝ} (stands : s.standing rows i = .ok m) :
    m.IsRigid := by
  induction i using ascend inPlace generalizing m with
  | root i parent =>
      rw [standing_root parent] at stands
      exact isRigid_of_placement stands
  | grown i p parent ih =>
      obtain ⟨above, own, first, second, rfl⟩ := (standing_eq_ok_iff inPlace parent).mp stands
      exact Mat4.isRigid_mul (ih first) (isRigid_of_placement second)

theorem shift_of_placement {i : Nat} {m n : Mat4 ℝ} (first : s.placement rows i = .ok m)
    (second : s.placement others i = .ok n) :
    ∃ turn other shift, m = .ofParts turn shift ∧ n = .ofParts other shift := by
  obtain ⟨row, shift, -, shifted, rfl⟩ := placement_eq_ok_iff.mp first
  obtain ⟨other, away, -, also, rfl⟩ := placement_eq_ok_iff.mp second
  rw [shifted] at also
  cases also
  exact ⟨_, _, shift, rfl, rfl⟩

theorem head_of_alike (inPlace : s.InPlace) (alike : s.Alike b rows others) {m n : Mat4 ℝ}
    (before : s.standing rows b = .ok m) (after : s.standing others b = .ok n) : n.apply 0 = m.apply 0 := by
  cases parent : s.parent? b with
  | none =>
      rw [standing_root parent] at before after
      obtain ⟨turn, other, shift, rfl, rfl⟩ := shift_of_placement before after
      rw [Mat4.ofParts_apply_zero, Mat4.ofParts_apply_zero]
  | some p =>
      -- The parent stands still, and no turn moves the point that it is about.
      have apart := not_mem_lineage_parent inPlace parent
      obtain ⟨above, own, stands, placed, rfl⟩ := (standing_eq_ok_iff inPlace parent).mp before
      obtain ⟨same, turned, still, also, rfl⟩ := (standing_eq_ok_iff inPlace parent).mp after
      rw [standing_of_alike inPlace alike apart, stands] at still
      cases still
      obtain ⟨turn, other, shift, rfl, rfl⟩ := shift_of_placement placed also
      rw [Mat4.mul_ofParts_apply, Mat4.mul_ofParts_apply, Mat4.ofParts_apply_zero, Mat4.ofParts_apply_zero]

theorem standing_of_moved (inPlace : s.InPlace) (alike : s.Alike b rows others) {motion base : Mat4 ℝ}
    (before : s.standing rows b = .ok base) (after : s.standing others b = .ok (motion * base)) {c : Nat}
    (on : b ∈ s.lineage c) {m : Mat4 ℝ} (stands : s.standing rows c = .ok m) :
    s.standing others c = .ok (motion * m) := by
  induction c using ascend inPlace generalizing m with
  | root c parent =>
      rw [lineage_root parent, List.mem_singleton] at on
      subst c
      rw [before] at stands
      cases stands
      exact after
  | grown c p parent ih =>
      rcases (mem_lineage_grown inPlace parent).mp on with above | rfl
      · have apart : c ≠ b := by
          rintro rfl
          exact not_mem_lineage_parent inPlace parent above
        obtain ⟨placed, own, first, second, rfl⟩ := (standing_eq_ok_iff inPlace parent).mp stands
        refine (standing_eq_ok_iff inPlace parent).mpr ⟨motion * placed, own, ih above first, ?_, Mat4.mul_assoc _ _ _⟩
        rw [placement_of_alike alike apart, second]
      · rw [before] at stands
        cases stands
        exact after

/-- One rigid motion about the head of a bone leads from one pose of it to the other. -/
theorem exists_motion (inPlace : s.InPlace) (alike : s.Alike b rows others) {m n : Mat4 ℝ}
    (before : s.standing rows b = .ok m) (after : s.standing others b = .ok n) :
    ∃ motion : Mat4 ℝ, motion.IsRigid ∧ n = motion * m ∧ motion.apply (m.apply 0) = m.apply 0 := by
  have rigid := isRigid_of_standing inPlace before
  obtain ⟨back, returns, undone⟩ := Mat4.exists_back rigid
  -- Back from the one pose, and on to the other.
  have leads : n * back * m = n := by rw [Mat4.mul_assoc, undone, Mat4.mul_identity]
  refine ⟨n * back, Mat4.isRigid_mul (isRigid_of_standing inPlace after) returns, leads.symm, ?_⟩
  calc
    (n * back).apply (m.apply 0) = (n * back * m).apply 0 := (Mat4.mul_apply rigid _ 0).symm
    _ = n.apply 0 := by rw [leads]
    _ = m.apply 0 := head_of_alike inPlace alike before after

/-- Turning a bone leaves every bone alone whose line does not pass through it, to the last bit, and so every vertex on
such a bone. In exact arithmetic whatever hangs below the bone, the bone itself included, follows one rigid motion that
keeps the head of the bone in its place. -/
theorem turning_moves_subtree :
    (∀ (α : Type) [Scalar α] (s : Skeleton α) (b : Nat) (rows others : List (Vec3 α)), s.InPlace →
      s.Alike b rows others →
        (∃ world otherWorld matrices otherMatrices,
          s.world (some rows) = .ok world ∧ s.world (some others) = .ok otherWorld ∧
          s.skinning (some rows) = .ok matrices ∧ s.skinning (some others) = .ok otherMatrices ∧
          matrices.size = s.size ∧ otherMatrices.size = s.size ∧
          ∀ c < s.size, b ∉ s.lineage c → ∃ stands moves,
            world[c]? = some stands ∧ otherWorld[c]? = some stands ∧
            matrices[c]? = some moves ∧ otherMatrices[c]? = some moves) ∧
        ∀ (mesh : Mesh α) (owners weights : Column α), mesh.Skinned s.size owners weights →
          ∃ posed otherPosed, s.skin mesh (some rows) = .ok posed ∧ s.skin mesh (some others) = .ok otherPosed ∧
            ∀ v c : Nat, owners.wholes[v]? = some (c : Int) → b ∉ s.lineage c →
              ∃ p, posed[v]? = some p ∧ otherPosed[v]? = some p) ∧
    ∀ (s : Skeleton ℝ) (b : Nat) (bone : Bone ℝ) (rows others : List (Vec3 ℝ)), s.InPlace → s.Alike b rows others →
      s.bones[b]? = some bone →
        ∃ motion : Mat4 ℝ, motion.IsRigid ∧ ∃ matrices otherMatrices,
          s.skinning (some rows) = .ok matrices ∧ s.skinning (some others) = .ok otherMatrices ∧
          (∃ moves, matrices[b]? = some moves ∧ motion.apply (moves.apply bone.head) = moves.apply bone.head) ∧
          ∀ c < s.size, b ∈ s.lineage c → ∃ moves,
            matrices[c]? = some moves ∧ otherMatrices[c]? = some (motion * moves) := by
  constructor
  · intro α _ s b rows others inPlace alike
    exact ⟨poses_of_alike inPlace alike, fun mesh owners weights skinned => skins_of_alike inPlace alike skinned⟩
  · intro s b bone rows others inPlace alike found
    obtain ⟨_, matrices, -, led, -, each⟩ := skinning_of_inPlace inPlace alike.one
    obtain ⟨_, otherMatrices, -, otherLed, -, otherEach⟩ := skinning_of_inPlace inPlace alike.other
    obtain ⟨base, before, -, moves⟩ := each b bone found
    obtain ⟨turned, after, -, -⟩ := otherEach b bone found
    obtain ⟨motion, rigid, rfl, still⟩ := exists_motion inPlace alike before after
    refine ⟨motion, rigid, matrices, otherMatrices, led, otherLed, ⟨_, moves, ?_⟩, ?_⟩
    · rw [Mat4.translation, Mat4.mul_ofParts_apply, ← Mat4.translation, Mat4.translation_neg_apply, still]
    · intro c inside on
      have there : s.bones[c]? = some s.bones[c] := Array.getElem?_eq_getElem inside
      obtain ⟨m, stands, -, moves⟩ := each c _ there
      obtain ⟨n, otherStands, -, otherMoves⟩ := otherEach c _ there
      rw [standing_of_moved inPlace alike before after on stands] at otherStands
      cases otherStands
      exact ⟨_, moves, by rw [otherMoves, Mat4.mul_assoc]⟩

theorem turning_moves_subtree_joint :
    ((joint : Skeleton Float).Alike 1 [0, 0] [0, ⟨1, 0, 0⟩] ∧
      ∃ posed otherPosed, (joint : Skeleton Float).skin specks (some [0, 0]) = .ok posed ∧
        (joint : Skeleton Float).skin specks (some [0, ⟨1, 0, 0⟩]) = .ok otherPosed ∧
        ∃ p, posed[0]? = some p ∧ otherPosed[0]? = some p) ∧
    (joint : Skeleton ℝ).Alike 1 [0, 0] [0, ⟨1, 0, 0⟩] ∧
      ∃ motion : Mat4 ℝ, motion.IsRigid ∧ ∃ matrices otherMatrices,
        (joint : Skeleton ℝ).skinning (some [0, 0]) = .ok matrices ∧
        (joint : Skeleton ℝ).skinning (some [0, ⟨1, 0, 0⟩]) = .ok otherMatrices ∧
        ∃ moves, matrices[1]? = some moves ∧ otherMatrices[1]? = some (motion * moves) := by
  have alike (α : Type) [Scalar α] : (joint : Skeleton α).Alike 1 [0, 0] [0, ⟨1, 0, 0⟩] :=
    ⟨rfl, rfl, fun i other => match i with
      | 0 => rfl
      | 1 => absurd rfl other
      | _ + 2 => rfl⟩
  have apart : 1 ∉ (joint : Skeleton Float).lineage 0 := fun on =>
    absurd (le_of_mem_lineage inPlace_joint on) (by decide)
  refine ⟨⟨alike Float, ?_⟩, alike ℝ, ?_⟩
  · obtain ⟨posed, otherPosed, skinned, otherSkinned, same⟩ :=
      (turning_moves_subtree.1 Float joint 1 _ _ inPlace_joint (alike Float)).2 _ _ _ skinned_specks
    exact ⟨posed, otherPosed, skinned, otherSkinned, same 0 0 rfl apart⟩
  · obtain ⟨motion, rigid, matrices, otherMatrices, led, otherLed, -, moved⟩ :=
      turning_moves_subtree.2 joint 1 _ _ _ inPlace_joint (alike ℝ) rfl
    exact ⟨motion, rigid, matrices, otherMatrices, led, otherLed,
      moved 1 (by decide) (self_mem_lineage inPlace_joint 1)⟩

end

end Skeleton

end Arbor
