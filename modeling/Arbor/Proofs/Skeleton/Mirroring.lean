import Arbor.Proofs.Skeleton.Descent
import Arbor.Proofs.Skeleton.SameTree
import Arbor.Proofs.Turtle.Preorder

/-!
# Mirroring

The skeleton of a tree branches as its segments do: a root without a segment, and behind it one bone for each
segment, on the bone of the segment that it grew from. The bones come depth first, so whatever hangs below a bone
follows it without a gap.
-/

namespace Arbor

variable {α : Type}

def Bone.bare (b : Bone α) : Bone α := { b with children := [] }

theorem offspring_congr {bones others : Array (Bone α)} (same : bones.map Bone.bare = others.map Bone.bare) (p : Nat) :
    offspring bones p = offspring others p := by
  have size : bones.size = others.size := by simpa using congrArg Array.size same
  rw [offspring, offspring, size]
  congr 1
  funext i
  have bare : (bones[i]?.map Bone.bare).map Bone.parent = (others[i]?.map Bone.bare).map Bone.parent := by
    rw [← Array.getElem?_map, same, Array.getElem?_map]
  rw [Option.map_map, Option.map_map] at bare
  exact decide_eq_decide.mpr (Eq.congr_left bare)

theorem offspring_push (bones : Array (Bone α)) (b : Bone α) (p : Nat) :
    offspring (bones.push b) p = offspring bones p ++ if b.parent = p then [bones.size] else [] := by
  rw [offspring, offspring, Array.size_push, List.range_succ, List.filter_append]
  congr 1
  · refine List.filter_congr fun i member => ?_
    have inside := List.mem_range.mp member
    rw [Array.getElem?_push, if_neg (by omega)]
  · rw [List.filter_singleton, Array.getElem?_push, if_pos rfl]
    simp only [Option.map_some, Option.some.injEq, Bool.cond_decide]

theorem offspring_of_size_le {bones : Array (Bone α)} (ordered : Rig.Ordered bones) {p : Nat}
    (beyond : bones.size ≤ p) : offspring bones p = [] := by
  refine List.filter_eq_nil_iff.mpr fun i member grows => ?_
  have inside := List.mem_range.mp member
  obtain ⟨b, found, parent⟩ := Option.map_eq_some_iff.mp (of_decide_eq_true grows)
  have before := (ordered i b found).2
  omega

namespace Rig

theorem bare_modify (bones : Array (Bone α)) (place : Nat) (children : List Int → List Int) :
    (bones.modify place fun b => { b with children := children b.children }).map Bone.bare = bones.map Bone.bare := by
  apply Array.ext_getElem?
  intro i
  rw [Array.getElem?_map, Array.getElem?_map, Array.getElem?_modify]
  by_cases same : place = i
  · rw [if_pos same, Option.map_map]
    rfl
  · rw [if_neg same]

variable [Scalar α]

theorem bare_sprouted (bones : Array (Bone α)) (s : Segment α) :
    (sprouted bones (.segment s)).map Bone.bare = (bones.map Bone.bare).push (bone s bones.size) := by
  rw [sprouted, Array.map_push, bare_modify bones _ fun children => children ++ [(bones.size : Int)]]
  rfl

theorem kin_sprouted {bones : Array (Bone α)} (ordered : Ordered bones) (kin : Kin bones) {s : Segment α}
    (before : boneOf s.parent < bones.size) : Kin (sprouted bones (.segment s)) := by
  intro p b found
  have others : offspring (sprouted bones (.segment s)) p =
      offspring bones p ++ if boneOf s.parent = p then [bones.size] else [] := by
    have same : (sprouted bones (.segment s)).map Bone.bare = (bones.push (bone s bones.size)).map Bone.bare := by
      rw [bare_sprouted, Array.map_push]
      rfl
    rw [offspring_congr same, offspring_push]
    simp only [bone, Int.natCast_inj]
  rw [others]
  rw [sprouted, Array.getElem?_push, Array.size_modify] at found
  by_cases last : p = bones.size
  · -- The new bone has no children yet, and no bone names one that is still to come.
    rw [if_pos last] at found
    cases found
    rw [if_neg (by omega), offspring_of_size_le ordered (Nat.le_of_eq last.symm)]
    rfl
  · rw [if_neg last, Array.getElem?_modify] at found
    by_cases parent : boneOf s.parent = p
    · rw [if_pos parent] at found ⊢
      obtain ⟨old, present, rfl⟩ := Option.map_eq_some_iff.mp found
      rw [List.map_append, ← kin p old present]
      rfl
    · rw [if_neg parent] at found ⊢
      rw [List.append_nil]
      exact kin p b found

theorem kin_start (position : Vec3 α) : Kin (start position).bones := by
  intro p b found
  have first : (start position).bones.size = 1 := rfl
  obtain rfl : p = 0 := by
    have inside := (Array.getElem?_eq_some_iff.mp found).1
    omega
  cases found
  rfl

theorem kin_foldl {count : Nat} {events : List (Event α)} (numbered : Numbered count events) {bones : Array (Bone α)}
    (full : bones.size = count + 1) (ordered : Ordered bones) (kin : Kin bones) :
    Kin (events.foldl sprouted bones) := by
  induction events generalizing count bones with
  | nil => exact kin
  | cons event later ih =>
      obtain ⟨next, rest, size⟩ := numbered_tail numbered full
      refine ih rest size (ordered_sprouted numbered full ordered) ?_
      cases event with
      | segment s =>
          have grown := numbered.2.1
          exact kin_sprouted ordered kin (by omega)
      | leaf l => exact kin

theorem bare_foldl {count : Nat} {events : List (Event α)} (numbered : Numbered count events) {bones : Array (Bone α)}
    (full : bones.size = count + 1) :
    (events.foldl sprouted bones).map Bone.bare =
      bones.map Bone.bare ++ ((segments events).map fun s => bone s (s.index + 1)).toArray := by
  induction events generalizing count bones with
  | nil => exact (Array.append_empty).symm
  | cons event later ih =>
      obtain ⟨next, rest, size⟩ := numbered_tail numbered full
      rw [List.foldl_cons, ih rest size]
      cases event with
      | segment s =>
          have index := numbered.1
          rw [bare_sprouted, full, segments_cons_segment, List.map_cons, index]
          simp
      | leaf l => rfl

/-- Bones that grow as segments do: a root at a place of its own, and behind it the bones of the segments. -/
structure Mirrors (root : Vec3 α) (placed : List (Segment α)) (bones : Array (Bone α)) : Prop where
  size : bones.size = placed.length + 1
  trunk : bones[0]?.map Bone.bare = some ⟨0, -1, root, 0, 0, []⟩
  grown : ∀ (k : Nat) (s : Segment α), placed[k]? = some s →
    bones[k + 1]?.map Bone.bare = some ⟨k + 1, boneOf s.parent, s.base, s.top - s.base, s.baseRadius, []⟩

theorem mirrors_foldl (root : Vec3 α) {events : List (Event α)} (numbered : Numbered 0 events) :
    Mirrors root (segments events) (events.foldl sprouted (start root).bones) := by
  have first : (start root).bones.map Bone.bare = #[⟨0, -1, root, 0, 0, []⟩] := by
    simp [start, Bone.bare]
  have bare := bare_foldl numbered (rfl : (start root).bones.size = 1)
  rw [first] at bare
  refine ⟨?_, ?_, ?_⟩
  · rw [size_foldl]
    exact Nat.add_comm 1 _
  · rw [← Array.getElem?_map, bare]
    exact Array.getElem?_append_left (Nat.one_pos)
  · intro k s found
    have index := index_of_numbered numbered found
    rw [← Array.getElem?_map, bare, Array.getElem?_append_right (Nat.le_add_left 1 k), List.getElem?_toArray,
      List.getElem?_map, List.size_toArray, List.length_singleton, Nat.add_sub_cancel, found, Option.map_some, bone,
      index, Nat.zero_add]
    rfl

section

variable {a : Assembler α} {root : Vec3 α} {events : List (Event α)} {mesh : Mesh α} {s : Skeleton α}

theorem mirrors_of_build (numbered : Numbered 0 events) (built : build a root events = .ok (mesh, s)) :
    Mirrors root (segments events) s.bones := by
  rw [(exists_of_build numbered built).2.1]
  exact mirrors_foldl root numbered

theorem kin_of_build (numbered : Numbered 0 events) (built : build a root events = .ok (mesh, s)) : Kin s.bones := by
  rw [(exists_of_build numbered built).2.1]
  exact kin_foldl numbered rfl (ordered_start root) (kin_start root)

end

theorem bare_of_mirrors {root : Vec3 α} {placed : List (Segment α)} {bones : Array (Bone α)}
    (mirrors : Mirrors root placed bones) {i : Nat} {b : Bone α} (found : bones[i]? = some b) :
    (i = 0 ∧ b.index = 0 ∧ b.parent = -1) ∨
      ∃ k s, i = k + 1 ∧ placed[k]? = some s ∧ b.index = k + 1 ∧ b.parent = boneOf s.parent := by
  cases i with
  | zero =>
      have trunk := mirrors.trunk
      rw [found, Option.map_some, Option.some.injEq] at trunk
      exact .inl ⟨rfl, congrArg Bone.index trunk, congrArg Bone.parent trunk⟩
  | succ k =>
      have inside := (Array.getElem?_eq_some_iff.mp found).1
      rw [mirrors.size] at inside
      have segment := List.getElem?_eq_getElem (Nat.lt_of_succ_lt_succ inside)
      have grown := mirrors.grown k _ segment
      rw [found, Option.map_some, Option.some.injEq] at grown
      exact .inr ⟨k, _, rfl, segment, congrArg Bone.index grown, congrArg Bone.parent grown⟩

end Rig

namespace Skeleton

variable [Scalar α] {s : Skeleton α} {root : Vec3 α} {placed : List (Segment α)}

theorem inPlace_of_mirrors (mirrors : Rig.Mirrors root placed s.bones) : s.InPlace := by
  intro i b found
  rcases Rig.bare_of_mirrors mirrors found with ⟨rfl, index, -⟩ | ⟨k, segment, rfl, -, index, -⟩
  · exact index
  · exact index

theorem parent?_of_mirrors (mirrors : Rig.Mirrors root placed s.bones) {i p : Nat} :
    s.parent? i = some p ↔ Grown placed p i := by
  rw [parent?_eq_some_iff]
  constructor
  · rintro ⟨b, found, parent⟩
    rcases Rig.bare_of_mirrors mirrors found with ⟨-, -, root⟩ | ⟨k, segment, rfl, placed, -, grown⟩
    · omega
    · exact ⟨k, segment, placed, by omega, rfl⟩
  · rintro ⟨k, segment, found, rfl, rfl⟩
    obtain ⟨b, present, same⟩ := Option.map_eq_some_iff.mp (mirrors.grown k segment found)
    exact ⟨b, present, congrArg Bone.parent same⟩

theorem mem_lineage_of_stem (mirrors : Rig.Mirrors root placed s.bones) {p i : Nat} (stem : Stem placed p i) :
    p ∈ s.lineage i := by
  have inPlace := inPlace_of_mirrors mirrors
  induction stem with
  | refl => exact self_mem_lineage inPlace p
  | tail _ last ih => exact (mem_lineage_grown inPlace ((parent?_of_mirrors mirrors).mpr last)).mpr (.inl ih)

theorem preordered_of_mirrors (mirrors : Rig.Mirrors root placed s.bones)
    (depthFirst : ∀ k segment, placed[k]? = some segment → Stem placed (boneOf segment.parent) k) : s.Preordered := by
  intro i p parent
  obtain ⟨k, segment, found, rfl, same⟩ := (parent?_of_mirrors mirrors).mp parent
  cases same
  exact mem_lineage_of_stem mirrors (depthFirst i segment found)

end Skeleton

namespace Gait

variable [Scalar α]

/-- Whatever a turtle draws, the skeleton that comes with it is accepted and branches as the segments do: its first
bone is the only one without a parent, the others are those of the segments, and the children of a bone are the bones
that name it. The search below a bone comes to an end and finds the bones whose line passes through it, which are the
next ones behind it. -/
theorem skeleton_mirrors_branching (g : Gait α) (root : Vec3 α) (word : Text) :
    ∃ s : Skeleton α,
      (∀ a rig, (g.events word).foldlM (Rig.step a) (Rig.start root) = .ok rig → Skeleton.ofBones rig.bones = .ok s) ∧
      (∀ a mesh built, Rig.build a root (g.events word) = .ok (mesh, built) → built = s) ∧
      (word.count (.scalar 'f') < 2 ^ 31 → ∀ a, (Rig.build a root (g.events word)).map Prod.snd =
        (Assembler.assemble a (g.events word)).map fun _ => s) ∧
      Rig.Mirrors root (segments (g.events word)) s.bones ∧
      (∀ i b, s.bones[i]? = some b →
        (b.parent < 0 ↔ i = 0) ∧ b.children = (offspring s.bones i).map Nat.cast) ∧
      ∀ i < s.size, ∃ m,
        s.descendants i = .ok ((List.range' (i + 1) m).map Nat.cast) ∧
        (∀ j, j ∈ List.range' (i + 1) m ↔ j < s.size ∧ j ≠ i ∧ i ∈ s.lineage j) ∧
        ∃ b noted, s.bone i = .ok b ∧ s.Searched b.children noted ∧
          noted.Perm ((List.range' (i + 1) m).map Nat.cast) := by
  have numbered := g.numbered_events word
  obtain ⟨s, accepted, bones, -⟩ := Rig.accepted_of_numbered root numbered
  have mirrors := Rig.mirrors_foldl root numbered
  have kin := Rig.kin_foldl numbered rfl (Rig.ordered_start root) (Rig.kin_start root)
  rw [← bones] at mirrors kin
  have inPlace := Skeleton.inPlace_of_mirrors mirrors
  have preordered := Skeleton.preordered_of_mirrors mirrors fun k _ found => g.stem_of_segment word found
  refine ⟨s, ?_, ?_, ?_, mirrors, ?_, ?_⟩
  · intro a rig run
    rw [Rig.foldlM_step a numbered (Rig.start root) rfl] at run
    obtain ⟨chunks, -, same⟩ := Outcome.bind_eq_ok run
    cases same
    exact accepted
  · intro a mesh built run
    exact Skeleton.eq_of_bones ((Rig.exists_of_build numbered run).2.1.trans bones.symm)
  · intro few a
    rw [← g.length_segments_events] at few
    rw [Rig.build_of_storable a numbered ((Rig.storable_iff numbered).mpr few) accepted, Assembler.assemble]
    cases (g.events word).mapM a.chunk with
    | error fault => rfl
    | ok chunks =>
        simp only [Outcome.ok_bind]
        cases Mesh.merge chunks (some staticSchema) <;> rfl
  · intro i b found
    refine ⟨?_, kin i b found⟩
    rcases Rig.bare_of_mirrors mirrors found with ⟨first, -, root⟩ | ⟨k, segment, later, -, -, grown⟩ <;> omega
  · intro i inside
    have below := Skeleton.descendants_of_kin inPlace kin inside
    obtain ⟨m, next⟩ := Skeleton.progeny_of_preordered inPlace preordered i
    rw [next] at below
    refine ⟨m, below, ?_, Skeleton.searched_of_descendants below⟩
    intro j
    rw [← next, Skeleton.mem_progeny]

theorem skeleton_mirrors_branching_fork :
    ∃ s : Skeleton Float,
      Rig.Mirrors 0 (segments (events (standard : Gait Float) ['f', '[', 'f', ']', 'f'])) s.bones ∧
        1 < s.size ∧ s.descendants 1 = .ok [2, 3] := by
  obtain ⟨s, -, -, -, mirrors, -, below⟩ :=
    skeleton_mirrors_branching (standard : Gait Float) 0 ['f', '[', 'f', ']', 'f']
  have size : s.size = 4 := mirrors.size
  have inside : 1 < s.size := by omega
  obtain ⟨m, found, members, -⟩ := below 1 inside
  have last : 3 ∈ List.range' 2 m :=
    (members 3).mpr ⟨by omega, by decide, Skeleton.mem_lineage_of_stem mirrors (.single ⟨2, _, rfl, rfl, rfl⟩)⟩
  have beyond : 4 ∉ List.range' 2 m := fun member => by
    have less := ((members 4).mp member).1
    omega
  rw [List.mem_range'_1] at last beyond
  obtain rfl : m = 2 := by omega
  exact ⟨s, mirrors, inside, found⟩

end Gait

end Arbor
