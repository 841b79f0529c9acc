import Arbor.Proofs.Export.Cells
import Arbor.Proofs.Skeleton.Mirroring
import Arbor.Proofs.Tree.Building

/-!
# Archives

The four arrays of a skeleton that carries a tree say all there is to it: its bones are numbered by their places, and
their children follow from the parents.
-/

namespace Arbor

variable {α : Type}

namespace Skeleton

variable {s t : Skeleton α}

theorem getElem?_map_bone {β : Type} (part : Bone α → β) (same : s.toList.map part = t.toList.map part) (i : Nat) :
    (s.bones[i]?).map part = (t.bones[i]?).map part := by
  rw [← Array.getElem?_toList, ← Array.getElem?_toList, ← List.getElem?_map, ← List.getElem?_map]
  exact congrArg (·[i]?) same

theorem bare_of_arrays (inPlace : s.InPlace) (other : t.InPlace) (parents : s.parents = t.parents)
    (heads : s.heads = t.heads) (offsets : s.offsets = t.offsets) (radii : s.radii = t.radii) :
    s.bones.map Bone.bare = t.bones.map Bone.bare := by
  apply Array.ext_getElem?
  intro i
  have parents := getElem?_map_bone Bone.parent parents i
  have heads := getElem?_map_bone Bone.head heads i
  have offsets := getElem?_map_bone Bone.offset offsets i
  have radii := getElem?_map_bone Bone.radius radii i
  rw [Array.getElem?_map, Array.getElem?_map]
  cases first : s.bones[i]? with
  | none =>
      rw [first, Option.map_none, eq_comm, Option.map_eq_none_iff] at parents
      rw [parents]
  | some b =>
      rw [first] at parents heads offsets radii
      obtain ⟨c, second, parent⟩ := Option.map_eq_some_iff.mp parents.symm
      rw [second, Option.map_some, Option.map_some, Option.some.injEq] at heads offsets radii
      have index : b.index = c.index := (inPlace i b first).trans (other i c second).symm
      rw [second, Option.map_some, Option.map_some, Bone.bare, Bone.bare, index, parent, heads, offsets, radii]

/-- Where children are the bones that name their bone, they come with the parents. -/
theorem eq_of_bare (kin : Kin s.bones) (other : Kin t.bones) (same : s.bones.map Bone.bare = t.bones.map Bone.bare) :
    s = t := by
  apply eq_of_bones
  apply Array.ext_getElem?
  intro i
  have bare : (s.bones[i]?).map Bone.bare = (t.bones[i]?).map Bone.bare := by
    rw [← Array.getElem?_map, same, Array.getElem?_map]
  cases first : s.bones[i]? with
  | none =>
      rw [first, Option.map_none, eq_comm, Option.map_eq_none_iff] at bare
      exact bare.symm
  | some b =>
      rw [first] at bare
      obtain ⟨c, second, alike⟩ := Option.map_eq_some_iff.mp bare.symm
      have children : b.children = c.children := by
        rw [kin i b first, other i c second, offspring_congr same]
      rw [second, Option.some.injEq]
      calc
        b = { b.bare with children := b.children } := rfl
        _ = { c.bare with children := c.children } := by rw [children, alike]
        _ = c := rfl

variable [Scalar α] {root : Vec3 α} {placed : List (Segment α)}

theorem arrays_of_archive {saved : SkeletonArchive α} (stored : s.archive = .ok saved) :
    saved = ⟨⟨.signed, [], s.parents.map .whole⟩, s.heads, s.offsets, s.radii⟩ := by
  obtain ⟨parents, kept, same⟩ := Outcome.bind_eq_ok stored
  rw [Column.ofWholes_signed] at kept
  split at kept
  · cases kept
    exact (Except.ok.inj same).symm
  · cases kept

/-- Skeletons of fewer than 2³¹ bones can be stored. -/
theorem archive_of_few (mirrors : Rig.Mirrors root placed s.bones) (few : s.size < 2 ^ 31) :
    ∃ saved, s.archive = .ok saved := by
  have fits : ∀ n ∈ s.parents, -2 ^ 31 ≤ n ∧ n < 2 ^ 31 := by
    intro n member
    obtain ⟨b, inside, rfl⟩ := List.mem_map.mp member
    obtain ⟨i, found⟩ := List.mem_iff_getElem?.mp inside
    rw [toList, Array.getElem?_toList] at found
    have least : -1 ≤ b.parent := by
      rcases Rig.bare_of_mirrors mirrors found with ⟨-, -, parent⟩ | ⟨k, segment, -, -, -, parent⟩ <;> omega
    have before := (ordered_of_inPlace (inPlace_of_mirrors mirrors) i b found).2
    have present : i < s.size := (Array.getElem?_eq_some_iff.mp found).1
    omega
  exact ⟨_, by rw [archive, Column.ofWholes_signed, if_pos fits]; rfl⟩

end Skeleton

namespace Rig

variable [Scalar α] {a : Assembler α} {root : Vec3 α} {events : List (Event α)} {mesh : Mesh α} {s : Skeleton α}

theorem eq_of_archive {b : Assembler α} {base : Vec3 α} {others : List (Event α)} {other : Mesh α} {t : Skeleton α}
    {saved : SkeletonArchive α} (numbered : Numbered 0 events) (later : Numbered 0 others)
    (built : build a root events = .ok (mesh, s)) (rebuilt : build b base others = .ok (other, t))
    (stored : s.archive = .ok saved) (again : t.archive = .ok saved) : s = t := by
  have mirrors := mirrors_of_build numbered built
  have reflects := mirrors_of_build later rebuilt
  have same := (Skeleton.arrays_of_archive stored).symm.trans (Skeleton.arrays_of_archive again)
  rw [SkeletonArchive.mk.injEq, Column.mk.injEq] at same
  obtain ⟨⟨-, -, parents⟩, heads, offsets, radii⟩ := same
  have bare := Skeleton.bare_of_arrays (Skeleton.inPlace_of_mirrors mirrors) (Skeleton.inPlace_of_mirrors reflects)
    (List.map_injective_iff.mpr (fun _ _ => Item.whole.inj) parents) heads offsets radii
  exact Skeleton.eq_of_bare (kin_of_build numbered built) (kin_of_build later rebuilt) bare

end Rig

/-- The flat list of the faces of a mesh is read as its triangles. The lines of a skeleton draw its bones but for those
without a parent, and only bones with numbers beyond 31 bits have none. And two trees that are stored alike, as every
tree of fewer than 2³¹ bones can be, have one skeleton, with all that is found below a bone and every pose of a mesh. -/
theorem exports_lose_nothing [Scalar α] :
    (∀ (m : Mesh α) (rows : List (Triangle UInt32)), m.faces = .triangles rows →
      Cells.read (rows.flatMap Surface.cell) = some (rows.map fun t => t.toList.map UInt32.toNat) ∧
        ∀ positions, (m.surface positions).cells = rows.flatMap Surface.cell) ∧
    (∀ s : Skeleton α,
      match s.lines with
      | .ok l => l.Draws (s.toList.filter fun b => 0 ≤ b.parent)
      | .error fault => fault = .notStorable ∧ ∃ b ∈ s.toList, 0 ≤ b.parent ∧ 2 ^ 31 ≤ b.index) ∧
    ∀ (g h : Gait α) (word other : Text) (a b : Assembler α) (root base : Vec3 α) (mesh copy : Mesh α)
      (s t : Skeleton α),
      Rig.build a root (g.events word) = .ok (mesh, s) → Rig.build b base (h.events other) = .ok (copy, t) →
        (s.size < 2 ^ 31 → ∃ saved, s.archive = .ok saved) ∧
          ∀ saved, s.archive = .ok saved → t.archive = .ok saved →
            s = t ∧ (∀ i, s.descendants i = t.descendants i) ∧ ∀ m angles, s.skin m angles = t.skin m angles := by
  refine ⟨?_, Skeleton.draws_lines, ?_⟩
  · intro m rows faces
    exact ⟨Surface.read_cells rows, Mesh.cells_surface faces⟩
  · intro g h word other a b root base mesh copy s t built rebuilt
    have mirrors := Rig.mirrors_of_build (g.numbered_events word) built
    refine ⟨Skeleton.archive_of_few mirrors, fun saved stored again => ?_⟩
    have same := Rig.eq_of_archive (g.numbered_events word) (h.numbered_events other) built rebuilt stored again
    subst same
    exact ⟨rfl, fun _ => rfl, fun _ _ => rfl⟩

def bareBranch (side : CodePoint) : Text := ['f', '[', side, ']', 'f']

theorem bones_bareBranch [Scalar α] (g : Gait α) (bones : Array (Bone α)) :
    (g.events (bareBranch '+')).foldl Rig.sprouted bones = (g.events (bareBranch '-')).foldl Rig.sprouted bones := rfl

def TreeParams.triangular : TreeParams Float := { TreeParams.standard with radialSegments := 3 }

theorem exports_lose_nothing_bare :
    Cells.read ([⟨0, 1, 2⟩, ⟨2, 1, 3⟩].flatMap Surface.cell) = some [[0, 1, 2], [2, 1, 3]] ∧
      ∃ mesh copy s t,
        Rig.build TreeParams.standard.assembler 0 ((TreeParams.standard.gait 0).events (bareBranch '+')) =
            .ok (mesh, s) ∧
          Rig.build TreeParams.triangular.assembler 0 ((TreeParams.triangular.gait 0).events (bareBranch '-')) =
            .ok (copy, t) ∧
          s.size = 3 ∧ ∃ saved, s.archive = .ok saved ∧ t.archive = .ok saved ∧ s = t := by
  obtain ⟨meshes, -, skeletons⟩ := exports_lose_nothing (α := Float)
  refine ⟨(meshes ⟨[0, 0, 0, 0], [0, 0, 0, 0], .triangles [⟨0, 1, 2⟩, ⟨2, 1, 3⟩], []⟩ _ rfl).1, ?_⟩
  have valid : (TreeParams.standard : TreeParams Float).validate = .ok () := by rfl
  have sound : TreeParams.triangular.validate = .ok () := by rfl
  have total : (TreeParams.standard : TreeParams Float).vertexTotal (bareBranch '+') = 68 := by decide
  have fewer : TreeParams.triangular.vertexTotal (bareBranch '-') = 28 := by decide
  have room : (TreeParams.standard : TreeParams Float).vertexTotal (bareBranch '+') ≤ 2 ^ 32 := by
    rw [total]
    decide
  have space : TreeParams.triangular.vertexTotal (bareBranch '-') ≤ 2 ^ 32 := by
    rw [fewer]
    decide
  obtain ⟨mesh, s, built⟩ := TreeParams.rig_of_usable (TreeParams.usable_iff.mp valid) positiveApart_float 0 room
  obtain ⟨copy, t, rebuilt⟩ := TreeParams.rig_of_usable (TreeParams.usable_iff.mp sound) positiveApart_float 0 space
  have bones := (Rig.exists_of_build (Gait.numbered_events _ _) built).2.1
  have others := (Rig.exists_of_build (Gait.numbered_events _ _) rebuilt).2.1
  have size : s.size = 3 := by
    rw [Skeleton.size, bones]
    rfl
  have same : s.bones = t.bones := by
    rw [bones, others, bones_bareBranch]
    rfl
  obtain ⟨small, -⟩ := skeletons _ _ _ _ _ _ _ _ _ _ _ _ built rebuilt
  obtain ⟨saved, stored⟩ := small (by omega)
  have again : t.archive = .ok saved := by
    rw [← stored, Skeleton.eq_of_bones same]
  obtain ⟨-, agree⟩ := skeletons _ _ _ _ _ _ _ _ _ _ _ _ built rebuilt
  exact ⟨mesh, copy, s, t, built, rebuilt, size, saved, stored, again, (agree saved stored again).1⟩

end Arbor
