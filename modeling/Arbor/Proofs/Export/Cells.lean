import Mathlib.Algebra.Group.Int.Defs
import Arbor.Export.Lines
import Arbor.Export.Surface
import Arbor.Proofs.Skeleton.Rigging

/-!
# Cells

A flat list of cells is read back as the cells that it was put together from, so the triangles of a surface and the
lines of bones can be told from the numbers alone.
-/

namespace Arbor

/-- A flat list as cells, each of them a count and as many numbers behind it. A list that ends within a cell is none. -/
def Cells.read : List Nat → Option (List (List Nat))
  | [] => some []
  | count :: rest =>
      if count ≤ rest.length then (read (rest.drop count)).map (rest.take count :: ·) else none
termination_by numbers => numbers.length
decreasing_by
  rw [List.length_drop, List.length_cons]
  omega

namespace Cells

@[simp] theorem read_nil : read [] = some [] := by rw [read]

theorem read_cell (cell rest : List Nat) : read (cell.length :: (cell ++ rest)) = (read rest).map (cell :: ·) := by
  have whole : cell.length ≤ (cell ++ rest).length := by
    rw [List.length_append]
    exact Nat.le_add_right _ _
  rw [read, if_pos whole, List.drop_left, List.take_left]

theorem read_eq_some_iff {numbers : List Nat} {cells : List (List Nat)} :
    read numbers = some cells ↔ numbers = cells.flatMap fun cell => cell.length :: cell := by
  constructor
  · intro done
    fun_induction read numbers generalizing cells with
    | case1 =>
        cases done
        rfl
    | case2 count rest whole ih =>
        obtain ⟨later, others, rfl⟩ := Option.map_eq_some_iff.mp done
        rw [List.flatMap_cons, ← ih others, List.length_take_of_le whole, List.cons_append, List.take_append_drop]
    | case3 => cases done
  · rintro rfl
    induction cells with
    | nil => exact read_nil
    | cons cell cells ih => rw [List.flatMap_cons, List.cons_append, read_cell, ih, Option.map_some]

theorem read_flatMap {β : Type} (cell content : β → List Nat) (counted : ∀ x, cell x = (content x).length :: content x)
    (xs : List β) : read (xs.flatMap cell) = some (xs.map content) := by
  rw [read_eq_some_iff, List.flatMap_map, ← funext counted]

end Cells

variable {α : Type} [Scalar α]

omit [Scalar α] in
theorem Surface.read_cells (rows : List (Triangle UInt32)) :
    Cells.read (rows.flatMap Surface.cell) = some (rows.map fun t => t.toList.map UInt32.toNat) :=
  Cells.read_flatMap cell (fun t => t.toList.map UInt32.toNat) (fun _ => rfl) rows

theorem Mesh.cells_surface {m : Mesh α} {rows : List (Triangle UInt32)} (faces : m.faces = .triangles rows)
    (positions : Option (List (Vec3 α))) : (m.surface positions).cells = rows.flatMap Surface.cell := by
  rw [Mesh.surface, faces]
  rfl

theorem Column.ofWholes_signed (ns : List Int) :
    (ofWholes .signed ns : Except (Fault α) (Column α)) =
      if ∀ n ∈ ns, -2 ^ 31 ≤ n ∧ n < 2 ^ 31 then .ok ⟨.signed, [], ns.map .whole⟩ else .error .notStorable := by
  rw [ofWholes, Outcome.mapM_check Format.storeWhole_signed]
  split <;> rfl

namespace BoneLines

def Joins (l : BoneLines α) (cell : List Nat) (b : Bone α) : Prop :=
  ∃ i j, cell = [i, j] ∧ l.points[i]? = some b.head ∧ l.points[j]? = some b.tail

/-- Lines of bones: one for each of them in order, from its head to its tail, with its number and that of its
parent. -/
structure Draws (l : BoneLines α) (bones : List (Bone α)) : Prop where
  lines : ∃ cells, Cells.read l.cells = some cells ∧ List.Forall₂ l.Joins cells bones
  ends : l.points.length = 2 * bones.length
  numbers : l.bones = ⟨.signed, [], (bones.map Bone.index).map .whole⟩
  parents : l.parents = ⟨.signed, [], (bones.map Bone.parent).map .whole⟩

end BoneLines

namespace Skeleton

omit [Scalar α] in
theorem jointed_eq (s : Skeleton α) : s.jointed = s.toList.filter fun b => 0 ≤ b.parent := by
  refine List.filter_congr fun b _ => ?_
  rw [Bone.isRoot, ← decide_not]
  exact decide_eq_decide.mpr Int.not_lt

theorem ends_of_bones (bones : List (Bone α)) (before : List (Vec3 α)) {k : Nat} (size : before.length = 2 * k) :
    List.Forall₂
      (fun i b =>
        let points := before ++ bones.flatMap fun b => [b.head, b.tail]
        points[2 * i]? = some b.head ∧ points[2 * i + 1]? = some b.tail)
      (List.range' k bones.length) bones := by
  induction bones generalizing before k with
  | nil => exact .nil
  | cons b later ih =>
      have rest := ih (before ++ [b.head, b.tail]) (k := k + 1) (by rw [List.length_append, size]; rfl)
      simp only [List.append_assoc, List.cons_append, List.nil_append] at rest
      refine .cons ⟨?_, ?_⟩ rest
      · rw [List.getElem?_append_right (by omega), size, Nat.sub_self]
        rfl
      · rw [List.getElem?_append_right (by omega), size, Nat.add_sub_cancel_left]
        rfl

omit [Scalar α] in
theorem storable_of_jointed {s : Skeleton α} (few : ∀ b ∈ s.jointed, b.index < 2 ^ 31) :
    (∀ n ∈ s.jointed.map Bone.index, -2 ^ 31 ≤ n ∧ n < 2 ^ 31) ∧
      ∀ n ∈ s.jointed.map Bone.parent, -2 ^ 31 ≤ n ∧ n < 2 ^ 31 := by
  have fits : ∀ b ∈ s.jointed, 0 ≤ b.parent ∧ b.parent < b.index ∧ b.index < 2 ^ 31 := by
    intro b member
    have least := (List.mem_filter.mp (s.jointed_eq ▸ member)).2
    exact ⟨of_decide_eq_true least, s.ordered b (List.mem_of_mem_filter member), few b member⟩
  constructor <;>
  · intro n member
    obtain ⟨b, jointed, rfl⟩ := List.mem_map.mp member
    have fit := fits b jointed
    omega

/-- The lines of a skeleton draw its bones, all but those without a parent. Only numbers beyond 31 bits stop them. -/
theorem draws_lines (s : Skeleton α) :
    match s.lines with
    | .ok l => l.Draws (s.toList.filter fun b => 0 ≤ b.parent)
    | .error fault => fault = .notStorable ∧ ∃ b ∈ s.toList, 0 ≤ b.parent ∧ 2 ^ 31 ≤ b.index := by
  by_cases few : ∀ b ∈ s.jointed, b.index < 2 ^ 31
  · obtain ⟨own, above⟩ := storable_of_jointed few
    rw [lines, Column.ofWholes_signed, if_pos own, Column.ofWholes_signed, if_pos above, ← jointed_eq]
    refine ⟨⟨(List.range s.jointed.length).map fun i => [2 * i, 2 * i + 1], ?_, ?_⟩, ?_, rfl, rfl⟩
    · exact Cells.read_flatMap BoneLines.cell (fun i => [2 * i, 2 * i + 1]) (fun _ => rfl) _
    · rw [List.forall₂_map_left_iff, List.range_eq_range']
      refine (ends_of_bones s.jointed [] (k := 0) rfl).imp ?_
      rintro i b ⟨head, tail⟩
      exact ⟨2 * i, 2 * i + 1, rfl, head, tail⟩
    · rw [List.length_flatMap]
      simp [Nat.mul_comm]
  · have large : ¬ ∀ n ∈ s.jointed.map Bone.index, -2 ^ 31 ≤ n ∧ n < 2 ^ 31 :=
      fun own => few fun b member => (own _ (List.mem_map_of_mem member)).2
    rw [lines, Column.ofWholes_signed, if_neg large]
    obtain ⟨b, jointed, beyond⟩ : ∃ b, b ∈ s.jointed ∧ ¬ b.index < 2 ^ 31 := by
      simpa only [Classical.not_forall, exists_prop] using few
    obtain ⟨inside, least⟩ := List.mem_filter.mp (s.jointed_eq ▸ jointed)
    exact ⟨rfl, b, inside, of_decide_eq_true least, Int.not_lt.mp beyond⟩

end Skeleton

end Arbor
