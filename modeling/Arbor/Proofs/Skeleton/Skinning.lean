import Arbor.Proofs.Skeleton.Kinematics

namespace Arbor

/-- A mesh that so many bones can carry: every vertex names one of them, with a weight. -/
structure Mesh.Skinned {α : Type} (mesh : Mesh α) (size : Nat) (owners weights : Column α) : Prop where
  owned : mesh.column? "skin_index" = some owners
  weighed : mesh.column? "skin_weight" = some weights
  flat : owners.itemShape = []
  each : owners.wholes.length = mesh.vertexCount
  inside : ∀ n ∈ owners.wholes, ∃ i : Nat, n = i ∧ i < size
  even : weights.reals.length = mesh.vertexCount

theorem Column.getElem?_constant {α : Type} [Scalar α] {count v : Nat} (inside : v < count) (x : α) :
    (constant count x).reals[v]? = some (Scalar.single x) := by
  rw [constant, reals_ofReals]
  exact List.getElem?_replicate_of_lt inside

namespace Skeleton

variable {α : Type} [Scalar α] {s : Skeleton α}

theorem world_none (s : Skeleton α) : s.world none = s.world (some (List.replicate s.size 0)) := rfl

theorem skinning_none (s : Skeleton α) : s.skinning none = s.skinning (some (List.replicate s.size 0)) := rfl

theorem skinning_of_world {angles : Option (List (Vec3 α))} {world : Array (Mat4 α)}
    (placed : s.world angles = .ok world) (size : world.size = s.size) :
    ∃ matrices, s.skinning angles = .ok matrices ∧ matrices.size = s.size ∧
      ∀ (i : Nat) (b : Bone α) (m : Mat4 α), s.bones[i]? = some b → world[i]? = some m →
        matrices[i]? = some (m * .translation (-b.head)) := by
  rw [skinning, placed]
  refine ⟨_, rfl, ?_, ?_⟩
  · have heads : s.heads.length = s.size := by rw [heads, List.length_map]; rfl
    simp [heads, size]
  · intro i b m found there
    have head : s.heads[i]? = some b.head := by
      rw [heads, List.getElem?_map, toList, Array.getElem?_toList, found, Option.map_some]
    have pair := List.getElem?_zip_eq_some (z := (m, b.head)) |>.mpr ⟨Array.getElem?_toList ▸ there, head⟩
    rw [List.getElem?_toArray, List.getElem?_map, pair, Option.map_some]

theorem skinning_of_inPlace (inPlace : s.InPlace) {rows : List (Vec3 α)} (one : rows.length = s.size) :
    ∃ world matrices, s.world (some rows) = .ok world ∧ s.skinning (some rows) = .ok matrices ∧
      matrices.size = s.size ∧
      ∀ (i : Nat) (b : Bone α), s.bones[i]? = some b → ∃ m, s.standing rows i = .ok m ∧ world[i]? = some m ∧
        matrices[i]? = some (m * .translation (-b.head)) := by
  obtain ⟨world, there, placed⟩ := world_of_inPlace inPlace one
  obtain ⟨matrices, led, size, each⟩ := skinning_of_world there placed.size
  refine ⟨world, matrices, there, led, size, fun i b found => ?_⟩
  obtain ⟨m, stands, here⟩ := placed.stands i (Array.getElem?_eq_some_iff.mp found).1
  exact ⟨m, stands, here, each i b m found here⟩

theorem exists_rows (s : Skeleton α) {angles : Option (List (Vec3 α))}
    (one : ∀ given, angles = some given → given.length = s.size) :
    ∃ rows : List (Vec3 α), rows.length = s.size ∧ s.skinning angles = s.skinning (some rows) := by
  cases angles with
  | none => exact ⟨_, List.length_replicate, s.skinning_none⟩
  | some given => exact ⟨given, one given rfl, rfl⟩

variable {mesh : Mesh α} {owners weights : Column α}

theorem moved_of_skinned {size : Nat} (skinned : mesh.Skinned size owners weights) {matrices : Array (Mat4 α)}
    (full : matrices.size = size) :
    ∃ posed, moved matrices owners mesh.positions = .ok posed ∧ posed.length = mesh.vertexCount ∧
      ∀ (v c : Nat) (m : Mat4 α) (p : Vec3 α), owners.wholes[v]? = some (c : Int) → matrices[c]? = some m →
        mesh.positions[v]? = some p → posed[v]? = some (m.apply p) := by
  have found : ∀ n ∈ owners.wholes, ∃ m, atPlace (α := α) matrices n = .ok m := by
    intro n member
    obtain ⟨i, rfl, bound⟩ := skinned.inside n member
    rw [← full] at bound
    exact ⟨_, atPlace_of_getElem? (Array.getElem?_eq_getElem bound)⟩
  obtain ⟨perVertex, looked, length⟩ := Outcome.mapM_of_each found
  have same : perVertex.length = mesh.positions.length := length.trans skinned.each
  rw [moved, skinned.flat, looked]
  simp only [List.isEmpty_nil, if_true, Outcome.ok_bind, sideBySide_of_length same]
  refine ⟨_, rfl, ?_, ?_⟩
  · rw [List.length_map, List.length_zip, same, Nat.min_self]
    rfl
  · intro v c m p owner own point
    obtain ⟨other, looked, there⟩ := Outcome.getElem?_of_mapM looked owner
    rw [atPlace_of_getElem? own] at looked
    cases looked
    have pair := List.getElem?_zip_eq_some (z := (m, p)) |>.mpr ⟨there, point⟩
    rw [List.getElem?_map, pair, Option.map_some]

theorem blend_of_skinned {size : Nat} (skinned : mesh.Skinned size owners weights) {matrices : Array (Mat4 α)}
    (full : matrices.size = size) :
    ∃ posed, blend matrices mesh = .ok posed ∧ posed.length = mesh.vertexCount ∧
      ∀ (v c : Nat) (m : Mat4 α) (w : α) (p : Vec3 α), owners.wholes[v]? = some (c : Int) → matrices[c]? = some m →
        weights.reals[v]? = some w → mesh.positions[v]? = some p → posed[v]? = some ((m.apply p).scale w) := by
  obtain ⟨points, followed, length, each⟩ := moved_of_skinned skinned full
  have same : weights.reals.length = points.length := skinned.even.trans length.symm
  simp only [blend, Mesh.column, skinned.owned, skinned.weighed, Outcome.ok_bind, followed, weighted,
    sideBySide_of_length same]
  refine ⟨_, rfl, ?_, ?_⟩
  · rw [List.length_map, List.length_zip, same, Nat.min_self, length]
  · intro v c m w p owner own weight point
    have pair := List.getElem?_zip_eq_some (z := (w, m.apply p)) |>.mpr ⟨weight, each v c m p owner own point⟩
    rw [List.getElem?_map, pair, Option.map_some]

theorem skin_of_matrices {angles : Option (List (Vec3 α))} {matrices : Array (Mat4 α)}
    (placed : s.skinning angles = .ok matrices) : s.skin mesh angles = blend matrices mesh := by
  rw [skin, placed, Outcome.ok_bind]

theorem skin_congr {angles others : Option (List (Vec3 α))} (same : s.skinning angles = s.skinning others) :
    s.skin mesh angles = s.skin mesh others := by
  rw [skin, skin, same]

theorem skin_of_inPlace (inPlace : s.InPlace) (skinned : mesh.Skinned s.size owners weights)
    {angles : Option (List (Vec3 α))} (one : ∀ given, angles = some given → given.length = s.size) :
    ∃ posed, s.skin mesh angles = .ok posed ∧ posed.length = mesh.vertexCount := by
  obtain ⟨rows, length, same⟩ := s.exists_rows one
  obtain ⟨world, matrices, -, led, size, -⟩ := skinning_of_inPlace inPlace length
  obtain ⟨posed, blended, counted, -⟩ := blend_of_skinned skinned size
  exact ⟨posed, (skin_of_matrices (same.trans led)).trans blended, counted⟩

/-- A pose that has not one turn for every bone is refused before anything is placed. -/
theorem skin_of_other_length {angles : List (Vec3 α)} (other : angles.length ≠ s.size) :
    s.skin mesh (some angles) = .error .shape := by
  have refused : s.turns (some angles) = .error .shape := if_neg other
  rw [skin, skinning, world, refused]
  rfl

theorem skin_ne_outOfRange
    (follows : ∀ {angles}, (∀ given, angles = some given → given.length = s.size) →
      ∃ posed, s.skin mesh angles = .ok posed ∧ posed.length = mesh.vertexCount)
    (angles : Option (List (Vec3 α))) : s.skin mesh angles ≠ .error .outOfRange := by
  intro outside
  by_cases one : ∀ given, angles = some given → given.length = s.size
  · obtain ⟨posed, followed, -⟩ := follows one
    rw [followed] at outside
    cases outside
  · push Not at one
    obtain ⟨given, rfl, other⟩ := one
    rw [skin_of_other_length other] at outside
    cases outside

def joint : Skeleton α where
  bones := #[⟨0, -1, 0, 0, 0, [1]⟩, ⟨1, 0, Vec3.up, 0, 0, []⟩]
  ordered := by simp

theorem inPlace_joint : (joint : Skeleton α).InPlace := by
  intro i b found
  match i with
  | 0 | 1 => cases found; rfl
  | i + 2 => cases found

def specks : Mesh α where
  positions := [⟨1, 0, 1⟩, Vec3.up]
  normals := [Vec3.up, Vec3.up]
  faces := .triangles []
  attributes :=
    [("skin_index", ⟨.signed, [], [.whole 0, .whole 1]⟩), ("skin_weight", .ofReals .single [1, 1 + 1])]

theorem skinned_specks :
    (specks : Mesh α).Skinned (joint : Skeleton α).size ⟨.signed, [], [.whole 0, .whole 1]⟩
      (.ofReals .single [1, 1 + 1]) where
  owned := rfl
  weighed := rfl
  flat := rfl
  each := rfl
  inside := by
    intro n member
    change n ∈ [0, 1] at member
    simp only [List.mem_cons, List.not_mem_nil, or_false] at member
    rcases member with rfl | rfl
    · exact ⟨0, rfl, Nat.zero_lt_two⟩
    · exact ⟨1, rfl, Nat.one_lt_two⟩
  even := rfl

end Skeleton

end Arbor
