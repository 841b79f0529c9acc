import Arbor.Proofs.Skeleton.RestPose
import Arbor.Proofs.Skeleton.Rigidity
import Arbor.Proofs.Tree.Swaying
import Arbor.Proofs.Turtle.Poses
import Arbor.Proofs.Wind.Swinging

namespace Arbor

namespace BoneSway

section

variable {α : Type} [Scalar α] {s : BoneSway α} {radii : List α} {time phase : α} {wind : Wind α}
  {rows : List (Vec3 α)}

theorem getElem?_turns_zero (turned : s.turns radii time wind phase = .ok rows) (filled : radii ≠ []) :
    rows[0]? = Option.some 0 := by
  obtain ⟨direction, rfl⟩ := turns_eq_ok turned
  rw [List.getElem?_mapIdx, List.getElem?_eq_getElem (List.length_pos_iff.mpr filled)]
  rfl

theorem level_of_turns (turned : s.turns radii time wind phase = .ok rows) : ∀ row ∈ rows, row.y = 0 := by
  obtain ⟨direction, rfl⟩ := turns_eq_ok turned
  intro row member
  obtain ⟨i, inside, rfl⟩ := List.mem_mapIdx.mp member
  split
  · rfl
  · rfl

end

theorem turns_of_quiet {s : BoneSway ℝ} {radii : List ℝ} {time phase : ℝ} {wind : Wind ℝ} {rows : List (Vec3 ℝ)}
    (turned : s.turns radii time wind phase = .ok rows)
    (quiet : wind.strength = 0 ∨ s.strengthScale = 0 ∨ s.flexibility = 0) : rows = List.replicate radii.length 0 := by
  obtain ⟨direction, rfl⟩ := turns_eq_ok turned
  have idle (push wave radius : ℝ) : push * (wind.strength * s.strengthScale) * s.influence radius * wave = 0 := by
    rcases quiet with zero | zero | zero
    · rw [zero, zero_mul, mul_zero, zero_mul, zero_mul]
    · rw [zero, mul_zero, mul_zero, zero_mul, zero_mul]
    · have stiff : s.influence radius = 0 := by
        rw [influence, zero]
        exact zero_div _
      rw [stiff, mul_zero, zero_mul]
  rw [List.eq_replicate_iff]
  refine ⟨List.length_mapIdx, ?_⟩
  intro row member
  obtain ⟨i, inside, rfl⟩ := List.mem_mapIdx.mp member
  split
  · rfl
  · ext
    · exact idle _ _ _
    · rfl
    · exact idle _ _ _

end BoneSway

namespace Skeleton

variable {s : Skeleton ℝ} {rows : List (Vec3 ℝ)} {root : Vec3 ℝ} {placed : List (Segment ℝ)}

/-- Bones that stand where a tree has been planted, and a mesh that follows them: nothing is divided by zero, the first
bone is not turned and none is turned about the axis that points up, what hangs on the first bone does not move, and
every bone on it begins at the root. -/
structure Planted (s : Skeleton ℝ) (mesh : Mesh ℝ) (root : Vec3 ℝ) (rows posed : List (Vec3 ℝ)) : Prop where
  undivided : ∀ radius ∈ s.radii, radius + 1 ≠ 0
  still : rows[0]? = some 0
  level : ∀ row ∈ rows, row.y = 0
  stands : ∃ world matrices : Array (Mat4 ℝ), s.world (some rows) = .ok world ∧ s.skinning (some rows) = .ok matrices ∧
    matrices[0]? = some .identity ∧
    ∀ (i : Nat) (b : Bone ℝ), s.bones[i]? = some b → b.parent = 0 →
      ∃ m n, world[i]? = some m ∧ m.shift = root ∧ matrices[i]? = some n ∧ n.apply b.head = root
  follows : s.skin mesh (some rows) = .ok posed
  bound : ∃ owners, mesh.column? "skin_index" = some owners ∧
    ∀ v : Nat, owners.wholes[v]? = some 0 → ∃ p, mesh.positions[v]? = some p ∧ posed[v]? = some p

theorem standing_of_still (mirrors : Rig.Mirrors root placed s.bones) (still : rows[0]? = some 0) :
    s.standing rows 0 = .ok (.translation root) := by
  obtain ⟨b, found, trunk⟩ := Option.map_eq_some_iff.mp mirrors.trunk
  have head : b.head = root := congrArg Bone.head trunk
  have parent : s.parent? 0 = none := (parent?_eq_none_iff found).mpr (by
    have first : b.parent = -1 := congrArg Bone.parent trunk
    omega)
  rw [standing_root parent, placement_of_row still (localTranslation_root found parent), head, Mat3.ofEuler_zero]
  rfl

theorem standing_on_root (mirrors : Rig.Mirrors root placed s.bones) (still : rows[0]? = some 0) {i : Nat} {b : Bone ℝ}
    (found : s.bones[i]? = some b) (parent : b.parent = 0) (head : b.head = root) {m : Mat4 ℝ}
    (stands : s.standing rows i = .ok m) : m.apply 0 = root ∧ m.shift = root := by
  have inPlace := inPlace_of_mirrors mirrors
  obtain ⟨trunk, first, bare⟩ := Option.map_eq_some_iff.mp mirrors.trunk
  have start : trunk.head = root := congrArg Bone.head bare
  have grown : s.parent? i = some 0 := parent?_eq_some_iff.mpr ⟨b, found, parent⟩
  obtain ⟨above, own, carries, placed, rfl⟩ := (standing_eq_ok_iff inPlace grown).mp stands
  rw [standing_of_still mirrors still] at carries
  cases carries
  obtain ⟨row, shift, -, shifted, rfl⟩ := placement_eq_ok_iff.mp placed
  rw [localTranslation_grown found grown first, head, start] at shifted
  cases shifted
  rw [Mat4.translation, Mat4.ofParts_mul]
  have back : (Mat3.identity : Mat3 ℝ).apply (root - root) + root = root := by
    rw [Mat3.identity_apply]
    ext <;> simp only [Vec3.add_eq, Vec3.sub_eq] <;> ring
  rw [back, Mat4.ofParts_apply_zero]
  exact ⟨rfl, rfl⟩

theorem planted_of_still (mirrors : Rig.Mirrors root placed s.bones) (one : rows.length = s.size)
    (still : rows[0]? = some 0) (level : ∀ row ∈ rows, row.y = 0) (thick : ∀ radius ∈ s.radii, 0 ≤ radius)
    (heads : ∀ (i : Nat) (b : Bone ℝ), s.bones[i]? = some b → b.parent = 0 → b.head = root) {mesh : Mesh ℝ}
    {owners : Column ℝ} (skinned : mesh.Skinned s.size owners (.constant mesh.vertexCount 1)) :
    ∃ posed, posed.length = mesh.vertexCount ∧ s.Planted mesh root rows posed := by
  have inPlace := inPlace_of_mirrors mirrors
  obtain ⟨world, matrices, there, led, size, each⟩ := skinning_of_inPlace inPlace one
  obtain ⟨posed, blended, length, moves⟩ := blend_of_skinned skinned size
  have fixed : matrices[0]? = some .identity := by
    obtain ⟨b, found, trunk⟩ := Option.map_eq_some_iff.mp mirrors.trunk
    have head : b.head = root := congrArg Bone.head trunk
    obtain ⟨m, stands, -, moved⟩ := each 0 b found
    rw [standing_of_still mirrors still] at stands
    cases stands
    rw [moved, head, Mat4.translation_mul]
    have back : root + -root = 0 := by
      ext <;> simp only [Vec3.add_eq, Vec3.neg_eq, Vec3.zero_eq] <;> ring
    rw [back]
    rfl
  refine ⟨posed, length, ?_, still, level, ⟨world, matrices, there, led, fixed, ?_⟩,
    (skin_of_matrices led).trans blended, owners, skinned.owned, ?_⟩
  · intro radius member
    have positive := thick radius member
    positivity
  · intro i b found parent
    obtain ⟨m, stands, here, moved⟩ := each i b found
    have head := heads i b found parent
    obtain ⟨place, shift⟩ := standing_on_root mirrors still found parent head stands
    exact ⟨m, _, here, shift, moved, by rw [head_moved, place]⟩
  · intro v root
    have inside : v < mesh.positions.length := by
      have bound := (List.getElem?_eq_some_iff.mp root).1
      rwa [skinned.each] at bound
    have point := List.getElem?_eq_getElem inside
    have weight : (Column.constant mesh.vertexCount (1 : ℝ)).reals[v]? = some 1 := Column.getElem?_constant inside 1
    refine ⟨_, point, (moves v 0 _ _ _ root fixed weight point).trans (congrArg some ?_)⟩
    rw [Mat4.identity_apply, Vec3.scale_one]

end Skeleton

namespace Gait

theorem bones_of_mirrors {g : Gait ℝ} (start : 0 < g.startRadius) (reduction : 0 < g.reduction) {word : Text}
    {s : Skeleton ℝ} (mirrors : Rig.Mirrors g.position (segments (g.events word)) s.bones) :
    (∀ radius ∈ s.radii, 0 ≤ radius) ∧
      ∀ (i : Nat) (b : Bone ℝ), s.bones[i]? = some b → b.parent = 0 → b.head = g.position := by
  constructor
  · intro radius member
    obtain ⟨b, inside, rfl⟩ := List.mem_map.mp member
    obtain ⟨i, found⟩ := List.mem_iff_getElem?.mp inside
    rw [Skeleton.toList, Array.getElem?_toList] at found
    rcases Rig.bare_of_mirrors mirrors found with ⟨rfl, -, -⟩ | ⟨k, segment, rfl, placed, -, -⟩
    · have trunk := mirrors.trunk
      rw [found, Option.map_some, Option.some.injEq] at trunk
      have thin : b.radius = 0 := congrArg Bone.radius trunk
      exact thin.ge
    · have grown := mirrors.grown k segment placed
      rw [found, Option.map_some, Option.some.injEq] at grown
      have radius : b.radius = segment.baseRadius := congrArg Bone.radius grown
      have member := mem_segments.mp (List.mem_of_getElem? placed)
      exact radius.trans_ge (thick_of_mem_events start reduction member).1.le
  · intro i b found parent
    rcases Rig.bare_of_mirrors mirrors found with ⟨-, -, root⟩ | ⟨k, segment, rfl, placed, -, carried⟩
    · omega
    · have grown := mirrors.grown k segment placed
      rw [found, Option.map_some, Option.some.injEq] at grown
      have head : b.head = segment.base := congrArg Bone.head grown
      have stands := g.standsOn_of_mem_events (mem_segments.mp (List.mem_of_getElem? placed))
      have loose : segment.parent = none := boneOf_eq_zero.mp (by omega)
      rw [loose] at stands
      exact head.trans stands.1

end Gait

namespace Asset

/-- A skinned tree as it sways at a moment: it stays planted where it was built, and it stays as it is where the wind
has no strength, or none that counts, and where nothing bends. -/
structure Stands (a : Asset ℝ) (bone : BoneSway ℝ) (wind : Wind ℝ) (rows posed : List (Vec3 ℝ)) : Prop where
  planted : ∃ root mesh s, a.params.checked = .ok root ∧ a.mesh? = some mesh ∧ a.skeleton? = some s ∧
    rows.length = s.size ∧ posed.length = mesh.vertexCount ∧ s.Planted mesh root rows posed
  quiet : wind.strength = 0 ∨ bone.strengthScale = 0 ∨ bone.flexibility = 0 →
    ∃ mesh, a.mesh? = some mesh ∧ posed = mesh.positions

theorem stands_of_turns {p : TreeParams ℝ} {word : Text} {a : Asset ℝ} (built : build p word = .ok a)
    (skins : a.mode = .skinned) {s : Skeleton ℝ} (bones : a.skeleton? = some s) {bone : BoneSway ℝ} {time phase : ℝ}
    {wind : Wind ℝ} {rows : List (Vec3 ℝ)} (turned : bone.turns s.radii time wind phase = .ok rows) :
    ∃ posed, a.Stands bone wind rows posed := by
  obtain ⟨place, mesh, skeleton, checked, rigged, held, carried⟩ := rig_of_build built skins
  rw [carried, Option.some.injEq] at bones
  subst bones
  have numbered := (p.gait place).numbered_events word
  have mirrors := Rig.mirrors_of_build numbered rigged
  obtain ⟨-, owners, owned, carries⟩ := Rig.skinned_of_build rigged
  have skinned := carries (Rig.inside_of_build numbered rigged owners owned)
  obtain ⟨-, -, -, positive, narrowing, -⟩ := TreeParams.checked_eq_ok.mp checked
  obtain ⟨thick, heads⟩ := Gait.bones_of_mirrors (g := p.gait place) positive.1 narrowing.1 mirrors
  have count : skeleton.radii.length = skeleton.size := by
    rw [Skeleton.radii, List.length_map]
    rfl
  have one : rows.length = skeleton.size := by
    obtain ⟨direction, rfl⟩ := BoneSway.turns_eq_ok turned
    rw [List.length_mapIdx, count]
  have filled : skeleton.radii ≠ [] := by
    have size : skeleton.size = _ := mirrors.size
    exact List.ne_nil_of_length_pos (by rw [count]; omega)
  obtain ⟨posed, length, planted⟩ := Skeleton.planted_of_still mirrors one
    (BoneSway.getElem?_turns_zero turned filled) (BoneSway.level_of_turns turned) thick heads skinned
  rw [← params_of_build built] at checked
  refine ⟨posed, ⟨place, mesh, skeleton, checked, held, carried, one, length, planted⟩, fun quiet => ⟨mesh, held, ?_⟩⟩
  have rest := Skeleton.skin_rest_of_build rigged (Rig.inside_of_build numbered rigged)
  have follows := planted.follows
  rw [BoneSway.turns_of_quiet turned quiet, count] at follows
  rw [Skeleton.skin_congr skeleton.skinning_none, follows] at rest
  exact Except.ok.inj rest

end Asset

end Arbor
