import Arbor.Proofs.Skeleton.Rigging

namespace Arbor

namespace Skeleton

variable {α : Type} {s : Skeleton α}

theorem eq_of_bones {t : Skeleton α} (same : s.bones = t.bones) : s = t := by
  cases s
  cases t
  cases same
  rfl

def InPlace (s : Skeleton α) : Prop := ∀ (i : Nat) (b : Bone α), s.bones[i]? = some b → b.index = i

def parent? (s : Skeleton α) (i : Nat) : Option Nat :=
  (s.bones[i]?).bind fun b => if b.parent < 0 then none else some b.parent.toNat

/-- The parents of a bone, their parents and so on, the outermost ancestor first and the bone itself last. -/
def lineage (s : Skeleton α) (i : Nat) : List Nat :=
  match s.parent? i with
  | none => [i]
  | some p => if p < i then s.lineage p ++ [i] else [i]
termination_by i

theorem parent?_eq_some_iff {i p : Nat} : s.parent? i = some p ↔ ∃ b, s.bones[i]? = some b ∧ b.parent = p := by
  rw [parent?, Option.bind_eq_some_iff]
  refine exists_congr fun b => and_congr_right fun _ => ?_
  by_cases root : b.parent < 0
  · rw [if_pos root]
    exact ⟨fun absent => (nomatch absent), fun same => absurd root (by omega)⟩
  · rw [if_neg root, Option.some.injEq]
    omega

theorem bone_of_getElem? {i : Nat} {b : Bone α} (found : s.bones[i]? = some b) : s.bone i = .ok b :=
  atPlace_of_getElem? found

theorem ordered_of_inPlace (inPlace : s.InPlace) : Rig.Ordered s.bones := by
  intro i b found
  have member : b ∈ s.bones.toList := List.mem_iff_getElem?.mpr ⟨i, by rwa [Array.getElem?_toList]⟩
  have before := s.ordered b member
  have index := inPlace i b found
  exact ⟨index, by omega⟩

theorem lt_of_parent? (inPlace : s.InPlace) {i p : Nat} (grown : s.parent? i = some p) : p < i := by
  obtain ⟨b, found, parent⟩ := parent?_eq_some_iff.mp grown
  have before := (ordered_of_inPlace inPlace i b found).2
  omega

theorem inPlace_of_ordered (ordered : Rig.Ordered s.bones) : s.InPlace := fun i b found => (ordered i b found).1

theorem parent?_eq_none_iff {i : Nat} {b : Bone α} (found : s.bones[i]? = some b) :
    s.parent? i = none ↔ b.parent < 0 := by
  rw [parent?, found, Option.bind_some]
  by_cases root : b.parent < 0
  · rw [if_pos root]
    exact iff_of_true rfl root
  · rw [if_neg root]
    exact iff_of_false (fun absent => nomatch absent) root

theorem isRoot_of_parent? {i : Nat} {b : Bone α} (found : s.bones[i]? = some b) (root : s.parent? i = none) :
    b.isRoot = true :=
  decide_eq_true ((parent?_eq_none_iff found).mp root)

theorem not_isRoot_of_parent? {i p : Nat} {b : Bone α} (found : s.bones[i]? = some b) (grown : s.parent? i = some p) :
    ¬ b.isRoot = true ∧ b.parent = p := by
  obtain ⟨same, present, named⟩ := parent?_eq_some_iff.mp grown
  rw [found] at present
  cases present
  refine ⟨?_, named⟩
  rw [Bone.isRoot, decide_eq_true_eq]
  omega

theorem size_of_parent? {i p : Nat} (grown : s.parent? i = some p) : i < s.size := by
  obtain ⟨b, found, -⟩ := parent?_eq_some_iff.mp grown
  exact (Array.getElem?_eq_some_iff.mp found).1

theorem lineage_root {i : Nat} (root : s.parent? i = none) : s.lineage i = [i] := by
  rw [lineage, root]

theorem lineage_grown (inPlace : s.InPlace) {i p : Nat} (grown : s.parent? i = some p) :
    s.lineage i = s.lineage p ++ [i] := by
  rw [lineage, grown]
  exact if_pos (lt_of_parent? inPlace grown)

theorem ascend (inPlace : s.InPlace) {motive : Nat → Prop} (root : ∀ i, s.parent? i = none → motive i)
    (grown : ∀ i p, s.parent? i = some p → motive p → motive i) (i : Nat) : motive i := by
  induction i using Nat.strongRecOn with
  | ind i ih =>
      cases parent : s.parent? i with
      | none => exact root i parent
      | some p => exact grown i p parent (ih p (lt_of_parent? inPlace parent))

theorem self_mem_lineage (inPlace : s.InPlace) (i : Nat) : i ∈ s.lineage i := by
  cases parent : s.parent? i with
  | none => rw [lineage_root parent]; exact List.mem_singleton_self i
  | some p => rw [lineage_grown inPlace parent]; exact List.mem_append_right _ (List.mem_singleton_self i)

theorem lineage_ne_nil (inPlace : s.InPlace) (i : Nat) : s.lineage i ≠ [] :=
  List.ne_nil_of_mem (self_mem_lineage inPlace i)

theorem mem_lineage_grown (inPlace : s.InPlace) {i p j : Nat} (grown : s.parent? i = some p) :
    j ∈ s.lineage i ↔ j ∈ s.lineage p ∨ j = i := by
  rw [lineage_grown inPlace grown, List.mem_append, List.mem_singleton]

theorem le_of_mem_lineage (inPlace : s.InPlace) {i j : Nat} (member : j ∈ s.lineage i) : j ≤ i := by
  induction i using ascend inPlace with
  | root i parent =>
      rw [lineage_root parent, List.mem_singleton] at member
      omega
  | grown i p parent ih =>
      have before := lt_of_parent? inPlace parent
      rcases (mem_lineage_grown inPlace parent).mp member with above | rfl
      · have bound := ih above
        omega
      · exact Nat.le_refl _

theorem not_mem_lineage_parent (inPlace : s.InPlace) {i p : Nat} (grown : s.parent? i = some p) : i ∉ s.lineage p := by
  intro on
  have below := le_of_mem_lineage inPlace on
  have before := lt_of_parent? inPlace grown
  omega

theorem lineage_starts (inPlace : s.InPlace) {i j : Nat} (member : j ∈ s.lineage i) : s.lineage j <+: s.lineage i := by
  induction i using ascend inPlace with
  | root i parent =>
      rw [lineage_root parent, List.mem_singleton] at member
      exact member ▸ List.prefix_refl _
  | grown i p parent ih =>
      rcases (mem_lineage_grown inPlace parent).mp member with above | rfl
      · rw [lineage_grown inPlace parent]
        exact (ih above).trans (List.prefix_append _ _)
      · exact List.prefix_refl _

theorem mem_lineage_trans (inPlace : s.InPlace) {i j k : Nat} (above : i ∈ s.lineage j) (below : j ∈ s.lineage k) :
    i ∈ s.lineage k :=
  (lineage_starts inPlace below).subset above

end Skeleton

end Arbor
