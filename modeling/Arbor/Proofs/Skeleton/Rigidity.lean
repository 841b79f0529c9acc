import Arbor.Proofs.Skeleton.Carried
import Arbor.Proofs.Skeleton.Mirroring
import Arbor.Proofs.Skeleton.Turning
import Arbor.Proofs.Tree.Building

namespace Arbor

/-- Vertices that hang on one bone with all of their weight are as far apart in a pose as they are at rest. -/
def Mesh.Unstretched (mesh : Mesh ℝ) (owners weights : Column ℝ) (posed : List (Vec3 ℝ)) : Prop :=
  ∀ v w c : Nat, owners.wholes[v]? = some (c : Int) → owners.wholes[w]? = some (c : Int) →
    weights.reals[v]? = some 1 → weights.reals[w]? = some 1 →
      ∃ p q x y, mesh.positions[v]? = some p ∧ mesh.positions[w]? = some q ∧
        posed[v]? = some x ∧ posed[w]? = some y ∧ Vec3.distance x y = Vec3.distance p q

namespace Skeleton

variable {s : Skeleton ℝ} {rows : List (Vec3 ℝ)}

theorem head_moved (m : Mat4 ℝ) (head : Vec3 ℝ) : (m * .translation (-head)).apply head = m.apply 0 := by
  rw [Mat4.mul_apply (Mat4.isRigid_translation _), Mat4.translation_neg_apply]

theorem joint_closed (inPlace : s.InPlace) {i p : Nat} {b above : Bone ℝ} (grown : s.parent? i = some p)
    (found : s.bones[i]? = some b) (parent : s.bones[p]? = some above) {m n : Mat4 ℝ}
    (stands : s.standing rows i = .ok m) (carries : s.standing rows p = .ok n) :
    (m * .translation (-b.head)).apply b.head = (n * .translation (-above.head)).apply b.head := by
  obtain ⟨base, own, first, placed, rfl⟩ := (standing_eq_ok_iff inPlace grown).mp stands
  rw [carries] at first
  cases first
  obtain ⟨row, shift, -, shifted, rfl⟩ := placement_eq_ok_iff.mp placed
  rw [localTranslation_grown found grown parent] at shifted
  cases shifted
  have back : b.head + -above.head = b.head - above.head := by
    ext <;> simp only [Vec3.add_eq, Vec3.sub_eq, Vec3.neg_eq] <;> ring
  calc
    (n * Mat4.ofParts (.ofEuler row) (b.head - above.head) * .translation (-b.head)).apply b.head
      = (n * Mat4.ofParts (.ofEuler row) (b.head - above.head)).apply 0 := head_moved _ _
    _ = n.apply (b.head - above.head) := by rw [Mat4.mul_ofParts_apply, Mat4.ofParts_apply_zero]
    _ = (n * .translation (-above.head)).apply b.head := by
      rw [Mat4.mul_apply (Mat4.isRigid_translation _), Mat4.translation_apply, back]

theorem length_moved {m : Mat4 ℝ} (rigid : m.IsRigid) (b : Bone ℝ) :
    Vec3.distance (m.apply b.tail) (m.apply b.head) = b.offset.norm := by
  rw [Mat4.distance_apply rigid, Vec3.distance, Bone.tail, Vec3.add_sub_cancel_left]

theorem isRigid_of_skinning (inPlace : s.InPlace) (one : rows.length = s.size) {matrices : Array (Mat4 ℝ)}
    (led : s.skinning (some rows) = .ok matrices) {i : Nat} {m : Mat4 ℝ} (moves : matrices[i]? = some m) : m.IsRigid := by
  obtain ⟨_, others, -, same, size, each⟩ := skinning_of_inPlace inPlace one
  rw [led] at same
  cases same
  have inside : i < s.size := size ▸ (Array.getElem?_eq_some_iff.mp moves).1
  obtain ⟨stand, stands, -, there⟩ := each i _ (Array.getElem?_eq_getElem inside)
  rw [moves] at there
  cases there
  exact Mat4.isRigid_mul (isRigid_of_standing inPlace stands) (Mat4.isRigid_translation _)

theorem unstretched_skin (inPlace : s.InPlace) (one : rows.length = s.size) {mesh : Mesh ℝ} {owners weights : Column ℝ}
    (skinned : mesh.Skinned s.size owners weights) :
    ∃ posed, s.skin mesh (some rows) = .ok posed ∧ posed.length = mesh.vertexCount ∧
      mesh.Unstretched owners weights posed := by
  obtain ⟨_, matrices, -, led, size, -⟩ := skinning_of_inPlace inPlace one
  obtain ⟨posed, blended, length, each⟩ := blend_of_skinned skinned size
  refine ⟨posed, (skin_of_matrices led).trans blended, length, ?_⟩
  intro v w c first second full whole
  have counted : owners.wholes.length = mesh.positions.length := skinned.each
  have vertex : v < mesh.positions.length := counted ▸ (List.getElem?_eq_some_iff.mp first).1
  have other : w < mesh.positions.length := counted ▸ (List.getElem?_eq_some_iff.mp second).1
  obtain ⟨i, named, inside⟩ := skinned.inside c (List.mem_of_getElem? first)
  have bone : matrices[c]? = some matrices[c] := Array.getElem?_eq_getElem (by omega)
  have point := List.getElem?_eq_getElem vertex
  have away := List.getElem?_eq_getElem other
  have same (p : Vec3 ℝ) : p.scale 1 = p := by
    ext <;> simp only [Vec3.scale] <;> ring
  refine ⟨_, _, _, _, point, away, each v c _ _ _ first bone full point, each w c _ _ _ second bone whole away, ?_⟩
  rw [same, same]
  exact Mat4.distance_apply (isRigid_of_skinning inPlace one led bone) _ _

end Skeleton

theorem TreeParams.usable_standard : (standard : TreeParams ℝ).Usable where
  finite _ _ := rfl
  position := ⟨rfl, fun _ _ => rfl⟩
  positive := by
    refine ⟨zero_lt_one, zero_lt_one, ?_⟩
    change (0 : ℝ) < (3 : Int) / (10 : Int)
    norm_num
  narrowing := by
    change (0 : ℝ) < (8 : Int) / (10 : Int) ∧ ((8 : Int) / (10 : Int) : ℝ) ≤ 1
    norm_num
  rings := by decide

noncomputable def TreeParams.sapling : TreeParams ℝ := { standard with mode := .skinned }

theorem TreeParams.usable_sapling : sapling.Usable :=
  ⟨usable_standard.finite, usable_standard.position, usable_standard.positive, usable_standard.narrowing,
    usable_standard.rings⟩

namespace Gait

theorem tail_of_mirrors (g : Gait ℝ) {root : Vec3 ℝ} {word : Text} {s : Skeleton ℝ}
    (mirrors : Rig.Mirrors root (segments (g.events word)) s.bones) {i p : Nat} {b above : Bone ℝ}
    (found : s.bones[i]? = some b) (grown : b.parent = p) (parent : s.bones[p]? = some above)
    (hangs : ¬ above.isRoot = true) : above.tail = b.head := by
  rcases Rig.bare_of_mirrors mirrors found with ⟨-, -, root⟩ | ⟨k, segment, rfl, placed, -, carried⟩
  · omega
  rcases Rig.bare_of_mirrors mirrors parent with ⟨-, -, root⟩ | ⟨j, below, rfl, before, -, -⟩
  · exact absurd (decide_eq_true (by omega)) hangs
  have stands := g.standsOn_of_mem_events (mem_segments.mp (List.mem_of_getElem? placed))
  have named : segment.parent = some j := boneOf_eq_succ.mp (by omega)
  rw [named] at stands
  obtain ⟨other, there, -, base, -⟩ := stands
  rw [before] at there
  cases there
  have child := mirrors.grown k segment placed
  have carrier := mirrors.grown j below before
  rw [found, Option.map_some, Option.some.injEq] at child
  rw [parent, Option.map_some, Option.some.injEq] at carrier
  have head : b.head = segment.base := congrArg Bone.head child
  have start : above.head = below.base := congrArg Bone.head carrier
  have offset : above.offset = below.top - below.base := congrArg Bone.offset carrier
  rw [head, base, Bone.tail, start, offset, Vec3.add_sub_cancel]

/-- However the bones of a tree are turned, every bone moves as a rigid body, meets the bone that it grows on at their
joint, and is as long as before, and so far apart remain any two vertices on it. -/
theorem posing_keeps_shape (g : Gait ℝ) (a : Assembler ℝ) (root : Vec3 ℝ) (word : Text) {mesh : Mesh ℝ}
    {s : Skeleton ℝ} (built : Rig.build a root (g.events word) = .ok (mesh, s)) {angles : Option (List (Vec3 ℝ))}
    (one : ∀ given, angles = some given → given.length = s.size) :
    (∃ matrices, s.skinning angles = .ok matrices ∧ matrices.size = s.size ∧
      ∀ (i : Nat) (b : Bone ℝ), s.bones[i]? = some b → ∃ m : Mat4 ℝ, matrices[i]? = some m ∧
        (m.r3 = ⟨0, 0, 0, 1⟩ ∧ m.turn * m.turn.transpose = .identity ∧ m.turn.toMatrix.det = 1) ∧
        Vec3.distance (m.apply b.tail) (m.apply b.head) = b.offset.norm ∧
        ∀ p : Nat, b.parent = p → ∃ (above : Bone ℝ) (n : Mat4 ℝ),
          s.bones[p]? = some above ∧ matrices[p]? = some n ∧ m.apply b.head = n.apply b.head ∧
            (¬ above.isRoot = true → n.apply above.tail = m.apply b.head)) ∧
    (∃ owners, mesh.Skinned s.size owners (.constant mesh.vertexCount 1)) ∧
    ∀ (carried : Mesh ℝ) (owners weights : Column ℝ), carried.Skinned s.size owners weights →
      ∃ posed, s.skin carried angles = .ok posed ∧ posed.length = carried.vertexCount ∧
        carried.Unstretched owners weights posed := by
  have mirrors := Rig.mirrors_of_build (g.numbered_events word) built
  obtain ⟨inPlace, owners, owned, skinned⟩ := Rig.skinned_of_build built
  obtain ⟨rows, length, same⟩ := s.exists_rows one
  obtain ⟨_, matrices, -, led, size, each⟩ := Skeleton.skinning_of_inPlace inPlace length
  refine ⟨⟨matrices, same.trans led, size, ?_⟩, ⟨owners, skinned ?_⟩, ?_⟩
  · intro i b found
    obtain ⟨m, stands, -, moves⟩ := each i b found
    have rigid := Skeleton.isRigid_of_skinning inPlace length led moves
    obtain ⟨last, rotation⟩ := Mat4.isRigid_iff.mp rigid
    refine ⟨_, moves, ⟨last, Mat3.isRotation_iff.mp rotation⟩, Skeleton.length_moved rigid b, ?_⟩
    intro p parent
    have grown := Skeleton.parent?_eq_some_iff.mpr ⟨b, found, parent⟩
    have before := Skeleton.lt_of_parent? inPlace grown
    have inside : p < s.size := Nat.lt_trans before (Skeleton.size_of_parent? grown)
    have above : s.bones[p]? = some s.bones[p] := Array.getElem?_eq_getElem inside
    obtain ⟨n, carries, -, there⟩ := each p _ above
    have joint := Skeleton.joint_closed inPlace grown found above stands carries
    refine ⟨_, _, above, there, joint, fun hangs => ?_⟩
    rw [g.tail_of_mirrors mirrors found parent above hangs, joint]
  · exact Rig.inside_of_build (g.numbered_events word) built owners owned
  · intro carried owners weights skinned
    obtain ⟨posed, followed, counted, apart⟩ := Skeleton.unstretched_skin inPlace length skinned
    rw [← Skeleton.skin_congr same] at followed
    exact ⟨posed, followed, counted, apart⟩

theorem posing_keeps_shape_stem :
    ∃ (mesh : Mesh ℝ) (s : Skeleton ℝ),
      Rig.build TreeParams.standard.assembler 0 ((TreeParams.standard.gait 0).events ['f', 'f']) = .ok (mesh, s) ∧
      ∀ first second third : Vec3 ℝ, (∀ given, some [first, second, third] = some given → given.length = s.size) ∧
        ∃ matrices, s.skinning (some [first, second, third]) = .ok matrices ∧
          ∃ (b above : Bone ℝ) (m n : Mat4 ℝ), s.bones[2]? = some b ∧ s.bones[1]? = some above ∧
            matrices[2]? = some m ∧ matrices[1]? = some n ∧ n.apply above.tail = m.apply b.head := by
  have room : TreeParams.vertexTotal (TreeParams.standard : TreeParams ℝ) ['f', 'f'] ≤ 2 ^ 32 := by
    have total : TreeParams.vertexTotal (TreeParams.standard : TreeParams ℝ) ['f', 'f'] = 68 := rfl
    rw [total]
    decide
  obtain ⟨mesh, s, built⟩ := TreeParams.rig_of_usable TreeParams.usable_standard positiveApart_real 0 room
  refine ⟨mesh, s, built, fun first second third => ?_⟩
  have mirrors := Rig.mirrors_of_build (numbered_events _ _) built
  have size : s.size = 3 := mirrors.size
  have one : ∀ given, some [first, second, third] = some given → given.length = s.size := by
    rintro given ⟨⟩
    exact size.symm
  obtain ⟨⟨matrices, led, -, each⟩, -⟩ := posing_keeps_shape _ _ _ _ built one
  obtain ⟨b, found, grown⟩ := Option.map_eq_some_iff.mp (mirrors.grown 1 _ rfl)
  obtain ⟨m, moves, -, -, joints⟩ := each 2 b found
  obtain ⟨above, n, parent, carries, -, joint⟩ := joints 1 (congrArg Bone.parent grown)
  obtain ⟨same, present, below⟩ := Option.map_eq_some_iff.mp (mirrors.grown 0 _ rfl)
  rw [parent] at present
  cases present
  have hangs : ¬ above.isRoot = true := by
    have root : above.parent = 0 := congrArg Bone.parent below
    rw [Bone.isRoot, root]
    decide
  exact ⟨one, matrices, led, b, above, m, n, found, parent, moves, carries, joint hangs⟩

end Gait

end Arbor
