import Arbor.Proofs.Outcome
import Arbor.Proofs.Skeleton.Lineage
import Arbor.Skeleton.Posing

/-!
# Kinematics

Where bones stand. One pass over the bones, parents first, gives for every bone the product of the placements on the
line that leads to it, whatever arithmetic the product is taken in.
-/

namespace Arbor

namespace Mat4

variable {α : Type} [Scalar α]

def product : List (Mat4 α) → Mat4 α
  | [] => identity
  | m :: ms => ms.foldl (· * ·) m

theorem product_concat {ms : List (Mat4 α)} (filled : ms ≠ []) (m : Mat4 α) : product (ms ++ [m]) = product ms * m := by
  cases ms with
  | nil => exact absurd rfl filled
  | cons first ms => rw [List.cons_append, product, product, List.foldl_append]; rfl

end Mat4

namespace Skeleton

variable {α : Type} [Scalar α] {s : Skeleton α}

/-- How a bone is placed inside its parent: turned by its own row of angles, and shifted from the head of the
parent. -/
def placement (s : Skeleton α) (rows : List (Vec3 α)) (i : Nat) : Except (Fault α) (Mat4 α) := do
  return .ofParts (.ofEuler (← atPlace rows.toArray i)) (← s.localTranslation i)

/-- Where a bone stands: the placements along its line, one inside the other. -/
def standing (s : Skeleton α) (rows : List (Vec3 α)) (i : Nat) : Except (Fault α) (Mat4 α) := do
  return .product (← (s.lineage i).mapM (s.placement rows))

theorem localTranslation_root {i : Nat} {b : Bone α} (found : s.bones[i]? = some b) (root : s.parent? i = none) :
    s.localTranslation i = .ok b.head := by
  rw [localTranslation, bone_of_getElem? found, Outcome.ok_bind, if_pos (isRoot_of_parent? found root)]
  rfl

theorem localTranslation_grown {i p : Nat} {b above : Bone α} (found : s.bones[i]? = some b)
    (grown : s.parent? i = some p) (parent : s.bones[p]? = some above) :
    s.localTranslation i = .ok (b.head - above.head) := by
  obtain ⟨hangs, named⟩ := not_isRoot_of_parent? found grown
  rw [localTranslation, bone_of_getElem? found, Outcome.ok_bind, if_neg hangs, named, bone_of_getElem? parent]
  rfl

theorem localTranslation_of_inPlace (inPlace : s.InPlace) {i : Nat} (inside : i < s.size) :
    ∃ shift, s.localTranslation i = .ok shift := by
  have found : s.bones[i]? = some s.bones[i] := Array.getElem?_eq_getElem inside
  cases parent : s.parent? i with
  | none => exact ⟨_, localTranslation_root found parent⟩
  | some p =>
      have before : p < s.size := Nat.lt_trans (lt_of_parent? inPlace parent) inside
      exact ⟨_, localTranslation_grown found parent (Array.getElem?_eq_getElem before)⟩

theorem placement_of_row {rows : List (Vec3 α)} {i : Nat} {row shift : Vec3 α} (own : rows[i]? = some row)
    (shifted : s.localTranslation i = .ok shift) : s.placement rows i = .ok (.ofParts (.ofEuler row) shift) := by
  have here : rows.toArray[i]? = some row := by rw [List.getElem?_toArray, own]
  rw [placement, atPlace_of_getElem? here, shifted]
  rfl

theorem localPlacement_of_index {rows : List (Vec3 α)} {i : Nat} {b : Bone α} (index : b.index = i)
    (inside : i < rows.length) : s.localPlacement (rows.map Mat3.ofEuler).toArray b = s.placement rows i := by
  have row : rows.toArray[i]? = some rows[i] := by rw [List.getElem?_toArray, List.getElem?_eq_getElem inside]
  have turn : (rows.map Mat3.ofEuler).toArray[i]? = some (Mat3.ofEuler rows[i]) := by
    rw [List.getElem?_toArray, List.getElem?_map, List.getElem?_eq_getElem inside, Option.map_some]
  rw [localPlacement, placement, index, atPlace_of_getElem? turn, atPlace_of_getElem? row]
  rfl

theorem standing_root {rows : List (Vec3 α)} {i : Nat} (root : s.parent? i = none) :
    s.standing rows i = s.placement rows i := by
  rw [standing, lineage_root root, List.mapM_cons, List.mapM_nil]
  cases s.placement rows i <;> rfl

theorem standing_grown (inPlace : s.InPlace) {rows : List (Vec3 α)} {i p : Nat} (grown : s.parent? i = some p) :
    s.standing rows i = do return (← s.standing rows p) * (← s.placement rows i) := by
  rw [standing, standing, lineage_grown inPlace grown, List.mapM_append, List.mapM_cons, List.mapM_nil]
  cases line : (s.lineage p).mapM (s.placement rows) with
  | error fault => rfl
  | ok placements =>
      cases s.placement rows i with
      | error fault => rfl
      | ok m =>
          -- A line is never empty, so the product along it goes on by one factor.
          have filled : placements ≠ [] := by
            rintro rfl
            exact lineage_ne_nil inPlace p (List.forall₂_nil_right_iff.mp (Outcome.forall₂_of_mapM line))
          simp only [Outcome.ok_bind, Outcome.pure_eq, Mat4.product_concat filled]

theorem placement_eq_ok_iff {rows : List (Vec3 α)} {i : Nat} {m : Mat4 α} :
    s.placement rows i = .ok m ↔ ∃ row shift, atPlace (α := α) rows.toArray i = .ok row ∧
      s.localTranslation i = .ok shift ∧ .ofParts (.ofEuler row) shift = m := by
  simp only [placement, Outcome.bind_eq_ok_iff, Outcome.pure_eq, Except.ok.injEq, exists_and_left]

theorem standing_eq_ok_iff (inPlace : s.InPlace) {rows : List (Vec3 α)} {i p : Nat} (grown : s.parent? i = some p)
    {m : Mat4 α} : s.standing rows i = .ok m ↔ ∃ above own, s.standing rows p = .ok above ∧
      s.placement rows i = .ok own ∧ above * own = m := by
  simp only [standing_grown inPlace grown, Outcome.bind_eq_ok_iff, Outcome.pure_eq, Except.ok.injEq, exists_and_left]

structure Placed (s : Skeleton α) (rows : List (Vec3 α)) (count : Nat) (world : Array (Mat4 α)) : Prop where
  size : world.size = s.size
  stands : ∀ i < count, ∃ m, s.standing rows i = .ok m ∧ world[i]? = some m

theorem placed_succ {rows : List (Vec3 α)} {k : Nat} {world : Array (Mat4 α)} (before : s.Placed rows k world)
    (inside : k < s.size) {m : Mat4 α} (stands : s.standing rows k = .ok m) :
    s.Placed rows (k + 1) (world.setIfInBounds k m) := by
  refine ⟨by rw [Array.size_setIfInBounds, before.size], ?_⟩
  intro i bound
  by_cases last : k = i
  · subst i
    exact ⟨m, stands, Array.getElem?_setIfInBounds_self_of_lt (by rw [before.size]; exact inside)⟩
  · obtain ⟨other, standing, there⟩ := before.stands i (by omega)
    exact ⟨other, standing, by rw [Array.getElem?_setIfInBounds_ne last, there]⟩

theorem placeBone_of_placed (inPlace : s.InPlace) {rows : List (Vec3 α)} (one : rows.length = s.size) {k : Nat}
    {b : Bone α} (found : s.bones[k]? = some b) {world : Array (Mat4 α)} (before : s.Placed rows k world) :
    ∃ m, s.standing rows k = .ok m ∧
      s.placeBone (rows.map Mat3.ofEuler).toArray world b = .ok (world.setIfInBounds k m) := by
  have inside : k < s.size := (Array.getElem?_eq_some_iff.mp found).1
  have index := inPlace k b found
  have room : k < world.size := by rw [before.size]; exact inside
  have turned : k < rows.length := by rw [one]; exact inside
  obtain ⟨shift, shifted⟩ := localTranslation_of_inPlace inPlace inside
  have placement := placement_of_row (List.getElem?_eq_getElem turned) shifted
  rw [placeBone, localPlacement_of_index index turned, placement, Outcome.ok_bind, index, place?_of_lt room]
  cases parent : s.parent? k with
  | none =>
      refine ⟨_, (standing_root parent).trans placement, ?_⟩
      rw [if_pos (isRoot_of_parent? found parent)]
      rfl
  | some p =>
      -- Parents come first, so the parent has been put where it stands.
      obtain ⟨hangs, named⟩ := not_isRoot_of_parent? found parent
      obtain ⟨above, stands, there⟩ := before.stands p (lt_of_parent? inPlace parent)
      refine ⟨_, (standing_eq_ok_iff inPlace parent).mpr ⟨above, _, stands, placement, rfl⟩, ?_⟩
      rw [if_neg hangs, named, atPlace_of_getElem? there]
      rfl

theorem world_of_inPlace (inPlace : s.InPlace) {rows : List (Vec3 α)} (one : rows.length = s.size) :
    ∃ world, s.world (some rows) = .ok world ∧ s.Placed rows s.size world := by
  have turns : s.turns (some rows) = .ok (rows.map Mat3.ofEuler).toArray := if_pos one
  rw [world, turns, Outcome.ok_bind]
  apply Outcome.foldlM_counts (s.Placed rows)
  · intro k b found world before
    rw [Array.getElem?_toList] at found
    obtain ⟨m, stands, placed⟩ := placeBone_of_placed inPlace one found before
    exact ⟨_, placed, placed_succ before (Array.getElem?_eq_some_iff.mp found).1 stands⟩
  · exact ⟨Array.size_replicate, fun i outside => absurd outside (Nat.not_lt_zero i)⟩

end Skeleton

end Arbor
