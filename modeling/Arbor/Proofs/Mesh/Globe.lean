import Arbor.Proofs.Mesh.Closure

/-!
# Globes

A ball is closed once its last column is one with its first and each of its poles is one place. The sides of a cell
then meet those of the cells around it, and the cells at a pole have two corners at one place.
-/

namespace Arbor

namespace Ball

/-- The place at row `r` and column `s` of a grid: the last column lies on the first, and each pole is one place. -/
def node (segments rings r s : Nat) : Nat × Nat := if r = 0 ∨ r = rings then (r, 0) else (r, s % segments)

/-- One name for each place: its row, and its column unless it is a pole. -/
def weld (segments rings v : Nat) : Nat × Nat := node segments rings (v / (segments + 1)) (v % (segments + 1))

theorem weld_vertex (rings : Nat) {segments r s : Nat} (inside : s ≤ segments) :
    weld segments rings (r * (segments + 1) + s) = node segments rings r s := by
  have below : s < segments + 1 := by omega
  rw [weld, Nat.add_comm, Nat.add_mul_div_right _ _ (Nat.succ_pos segments), Nat.div_eq_of_lt below, Nat.zero_add,
    Nat.add_mul_mod_self_right, Nat.mod_eq_of_lt below]

/-- The two triangles of the cell at row `r` and column `s`, by the row that has two of their corners. -/
def upper (segments r s : Nat) : Triangle Nat :=
  ⟨r * (segments + 1) + s, r * (segments + 1) + s + 1, r * (segments + 1) + s + (segments + 1)⟩

def lower (segments r s : Nat) : Triangle Nat :=
  ⟨r * (segments + 1) + s + 1, r * (segments + 1) + s + (segments + 1) + 1, r * (segments + 1) + s + (segments + 1)⟩

def grid (segments rings : Nat) : List (Triangle Nat) :=
  (List.range rings).flatMap fun r => (List.range segments).flatMap fun s => [upper segments r s, lower segments r s]

theorem cell_eq (segments rings r s : Nat) : cell segments rings r s =
    (if r = 0 then [] else [upper segments r s]) ++ if r + 1 = rings then [] else [lower segments r s] := rfl

theorem map_weld_upper (rings : Nat) {segments r s : Nat} (inside : s < segments) :
    (upper segments r s).map (weld segments rings) =
      ⟨node segments rings r s, node segments rings r (s + 1), node segments rings (r + 1) s⟩ := by
  have below : r * (segments + 1) + s + (segments + 1) = (r + 1) * (segments + 1) + s := by ring
  rw [upper, Triangle.map, below, Nat.add_assoc, weld_vertex rings (by omega), weld_vertex rings (by omega),
    weld_vertex rings (by omega)]

theorem map_weld_lower (rings : Nat) {segments r s : Nat} (inside : s < segments) :
    (lower segments r s).map (weld segments rings) =
      ⟨node segments rings r (s + 1), node segments rings (r + 1) (s + 1), node segments rings (r + 1) s⟩ := by
  have below : r * (segments + 1) + s + (segments + 1) = (r + 1) * (segments + 1) + s := by ring
  rw [lower, Triangle.map, below, Nat.add_assoc, Nat.add_assoc, weld_vertex rings (by omega),
    weld_vertex rings (by omega), weld_vertex rings (by omega)]

theorem node_pole (segments : Nat) {rings r : Nat} (pole : r = 0 ∨ r = rings) (s : Nat) :
    node segments rings r s = (r, 0) :=
  if_pos pole

theorem node_inner {segments rings r : Nat} (upper : r ≠ 0) (lower : r ≠ rings) (s : Nat) :
    node segments rings r s = (r, s % segments) :=
  if_neg (by omega)

theorem nodup_upper {segments rings r s : Nat} (two : 2 ≤ segments) (row : r < rings) (inside : s < segments) :
    ((upper segments r s).map (weld segments rings)).toList.Nodup ↔ r ≠ 0 := by
  rw [map_weld_upper rings inside]
  obtain ⟨-, other⟩ := Frustum.next_column inside two
  have own := Nat.mod_eq_of_lt inside
  have here : r ≠ rings := by omega
  by_cases first : r = 0
  · simp [Triangle.toList, node, first]
  · by_cases last : r + 1 = rings
    · simp [Triangle.toList, node, first, last, own, here, other.symm]
    · simp [Triangle.toList, node, first, last, own, here, other.symm]

theorem nodup_lower {segments rings r s : Nat} (two : 2 ≤ segments) (row : r < rings) (inside : s < segments) :
    ((lower segments r s).map (weld segments rings)).toList.Nodup ↔ r + 1 ≠ rings := by
  rw [map_weld_lower rings inside]
  obtain ⟨-, other⟩ := Frustum.next_column inside two
  have own := Nat.mod_eq_of_lt inside
  have here : r ≠ rings := by omega
  by_cases last : r + 1 = rings
  · simp [Triangle.toList, node, last]
  · by_cases first : r = 0
    · subst first
      simp [Triangle.toList, node, last, own, other]
    · simp [Triangle.toList, node, first, last, own, here, other]

/-- What the tests for a pole leave out are the triangles that join a place with itself. -/
theorem faces_eq_filter {segments : Nat} (two : 2 ≤ segments) (rings : Nat) :
    faces segments rings =
      (grid segments rings).filter fun t => (t.map (weld segments rings)).toList.Nodup := by
  rw [faces, grid, List.filter_flatMap]
  refine List.flatMap_congr fun r counted => ?_
  rw [List.filter_flatMap]
  refine List.flatMap_congr fun s held => ?_
  have row := List.mem_range.mp counted
  have inside := List.mem_range.mp held
  rw [cell_eq, List.filter_cons, List.filter_cons, List.filter_nil]
  simp only [nodup_upper two row inside, nodup_lower two row inside, decide_not, Bool.not_eq_true',
    decide_eq_false_iff_not]
  by_cases first : r = 0 <;> by_cases last : r + 1 = rings <;> simp [first, last]

def upperSides (s next : Nat) : List ((Nat × Nat) × (Nat × Nat)) :=
  [((0, 0), (1, next)), ((1, next), (1, s)), ((1, s), (0, 0))]

def lowerSides (r s next : Nat) : List ((Nat × Nat) × (Nat × Nat)) :=
  [((r, s), (r, next)), ((r, next), (r + 1, 0)), ((r + 1, 0), (r, s))]

def innerSides (r s next : Nat) : List ((Nat × Nat) × (Nat × Nat)) :=
  [((r, s), (r, next)), ((r, next), (r + 1, s)), ((r + 1, s), (r, s)),
    ((r, next), (r + 1, next)), ((r + 1, next), (r + 1, s)), ((r + 1, s), (r, next))]

def cellSides (rings r s next : Nat) : List ((Nat × Nat) × (Nat × Nat)) :=
  if r = 0 then upperSides s next else if r + 1 = rings then lowerSides r s next else innerSides r s next

theorem sides_cell {segments rings r s : Nat} (two : 2 ≤ rings) (row : r < rings) (inside : s < segments) :
    ((cell segments rings r s).map (Triangle.map (weld segments rings))).flatMap Triangle.sides =
      cellSides rings r s ((s + 1) % segments) := by
  have own : s % segments = s := Nat.mod_eq_of_lt inside
  rw [cell_eq, cellSides]
  by_cases first : r = 0
  · have more : ¬ r + 1 = rings := by omega
    rw [if_pos first, if_pos first, if_neg more, List.nil_append, List.map_singleton, map_weld_lower rings inside,
      node_pole segments (.inl first), node_inner (by omega) more, node_inner (by omega) more, own, first]
    rfl
  · have here : r ≠ rings := by omega
    rw [if_neg first, if_neg first]
    by_cases last : r + 1 = rings
    · rw [if_pos last, if_pos last, List.append_nil, List.map_singleton, map_weld_upper rings inside,
        node_pole segments (.inr last), node_inner first here, node_inner first here, own]
      rfl
    · rw [if_neg last, if_neg last, List.map_append, List.map_singleton, List.map_singleton,
        map_weld_upper rings inside, map_weld_lower rings inside, node_inner first here, node_inner first here,
        node_inner (by omega) last, node_inner (by omega) last, own]
      rfl

theorem mem_cellSides {rings r s next a b c d : Nat} :
    ((a, b), (c, d)) ∈ cellSides rings r s next ↔
      (r = 0 ∧ (a = 0 ∧ b = 0 ∧ c = 1 ∧ d = next ∨ a = 1 ∧ b = next ∧ c = 1 ∧ d = s ∨
        a = 1 ∧ b = s ∧ c = 0 ∧ d = 0)) ∨
      (r ≠ 0 ∧ r + 1 = rings ∧ (a = r ∧ b = s ∧ c = r ∧ d = next ∨ a = r ∧ b = next ∧ c = r + 1 ∧ d = 0 ∨
        a = r + 1 ∧ b = 0 ∧ c = r ∧ d = s)) ∨
      (r ≠ 0 ∧ r + 1 ≠ rings ∧ (a = r ∧ b = s ∧ c = r ∧ d = next ∨ a = r ∧ b = next ∧ c = r + 1 ∧ d = s ∨
        a = r + 1 ∧ b = s ∧ c = r ∧ d = s ∨ a = r ∧ b = next ∧ c = r + 1 ∧ d = next ∨
        a = r + 1 ∧ b = next ∧ c = r + 1 ∧ d = s ∨ a = r + 1 ∧ b = s ∧ c = r ∧ d = next)) := by
  rw [cellSides]
  by_cases first : r = 0
  · simp [first, upperSides, and_assoc]
  · by_cases last : r + 1 = rings
    · simp [first, last, lowerSides, and_assoc]
    · simp [first, last, innerSides, and_assoc]

theorem eq_of_mem_cellSides {segments rings r s q t : Nat} (three : 3 ≤ segments)
    (row : r < rings) (inside : s < segments) (other : q < rings) (within : t < segments)
    {side : (Nat × Nat) × (Nat × Nat)} (here : side ∈ cellSides rings r s ((s + 1) % segments))
    (there : side ∈ cellSides rings q t ((t + 1) % segments)) : r = q ∧ s = t := by
  obtain ⟨⟨a, b⟩, c, d⟩ := side
  have first := Frustum.next_column_cases inside
  have second := Frustum.next_column_cases within
  rw [mem_cellSides] at here there
  generalize (s + 1) % segments = next at first here
  generalize (t + 1) % segments = after at second there
  rcases here with ⟨upper, here | here | here⟩ | ⟨upper, lower, here | here | here⟩ |
    ⟨upper, lower, here | here | here | here | here | here⟩
  all_goals omega

theorem nodup_cellSides {segments rings r s : Nat} (two : 2 ≤ segments) (inside : s < segments) :
    (cellSides rings r s ((s + 1) % segments)).Nodup := by
  obtain ⟨-, other⟩ := Frustum.next_column inside two
  generalize (s + 1) % segments = next at other
  rw [cellSides]
  split
  · simp [upperSides]
  · split
    · simp [lowerSides]
    · simp [innerSides]
      omega

theorem ne_of_mem_cellSides {segments rings r s : Nat} (two : 2 ≤ segments) (inside : s < segments)
    {side : (Nat × Nat) × (Nat × Nat)} (own : side ∈ cellSides rings r s ((s + 1) % segments)) :
    side.1 ≠ side.2 := by
  obtain ⟨⟨a, b⟩, c, d⟩ := side
  obtain ⟨-, other⟩ := Frustum.next_column inside two
  rw [mem_cellSides] at own
  rw [Ne, Prod.mk.injEq]
  omega

theorem level_mem_cellSides {r : Nat} (below : r ≠ 0) (rings s next : Nat) :
    ((r, s), (r, next)) ∈ cellSides rings r s next := by
  rw [cellSides, if_neg below]
  split
  · exact List.mem_cons_self
  · exact List.mem_cons_self

theorem floor_mem_cellSides {rings r : Nat} (above : r + 1 ≠ rings) (s next : Nat) :
    ((r + 1, next), (r + 1, s)) ∈ cellSides rings r s next := by
  rw [cellSides, if_neg above]
  split
  · rename_i first
    rw [first]
    exact List.mem_cons_of_mem _ List.mem_cons_self
  · simp [innerSides]

/-- Each side is gone back along in its own cell, in one beside it, in the one above it or in the one below it. -/
theorem exists_swap_mem_cellSides {segments rings r s : Nat} (two : 2 ≤ rings) (row : r < rings)
    (inside : s < segments) {side : (Nat × Nat) × (Nat × Nat)}
    (own : side ∈ cellSides rings r s ((s + 1) % segments)) :
    ∃ q < rings, ∃ t < segments, side.swap ∈ cellSides rings q t ((t + 1) % segments) := by
  obtain ⟨before, early, turn⟩ := Frustum.exists_column_before inside
  have after : (s + 1) % segments < segments := Nat.mod_lt _ (by omega)
  have above : r ≠ 0 → ((r, (s + 1) % segments), (r, s)) ∈ cellSides rings (r - 1) s ((s + 1) % segments) := by
    intro first
    obtain ⟨q, rfl⟩ := Nat.exists_eq_succ_of_ne_zero first
    exact floor_mem_cellSides (by omega) s _
  have below := level_mem_cellSides (Nat.succ_ne_zero r) rings s ((s + 1) % segments)
  rw [cellSides] at own
  split at own
  · obtain rfl : r = 0 := by assumption
    simp only [upperSides, List.mem_cons, List.not_mem_nil, or_false] at own
    rcases own with rfl | rfl | rfl
    · exact ⟨0, row, _, after, by simp [cellSides, upperSides]⟩
    · exact ⟨1, two, s, inside, below⟩
    · exact ⟨0, row, before, early, by simp [cellSides, upperSides, turn]⟩
  · rename_i first
    split at own
    · rename_i last
      simp only [lowerSides, List.mem_cons, List.not_mem_nil, or_false] at own
      rcases own with rfl | rfl | rfl
      · exact ⟨r - 1, by omega, s, inside, above first⟩
      · exact ⟨r, row, _, after, by simp [cellSides, first, last, lowerSides]⟩
      · exact ⟨r, row, before, early, by simp [cellSides, first, last, lowerSides, turn]⟩
    · rename_i last
      simp only [innerSides, List.mem_cons, List.not_mem_nil, or_false] at own
      rcases own with rfl | rfl | rfl | rfl | rfl | rfl
      · exact ⟨r - 1, by omega, s, inside, above first⟩
      · exact ⟨r, row, s, inside, by simp [cellSides, first, last, innerSides]⟩
      · exact ⟨r, row, before, early, by simp [cellSides, first, last, innerSides, turn]⟩
      · exact ⟨r, row, _, after, by simp [cellSides, first, last, innerSides]⟩
      · exact ⟨r + 1, by omega, s, inside, below⟩
      · exact ⟨r, row, s, inside, by simp [cellSides, first, last, innerSides]⟩

theorem sides_welded {segments rings : Nat} (two : 2 ≤ rings) :
    ((faces segments rings).map (Triangle.map (weld segments rings))).flatMap Triangle.sides =
      (List.range rings).flatMap fun r => (List.range segments).flatMap fun s =>
        cellSides rings r s ((s + 1) % segments) := by
  rw [faces, List.map_flatMap, List.flatMap_assoc]
  refine List.flatMap_congr fun r row => ?_
  rw [List.map_flatMap, List.flatMap_assoc]
  exact List.flatMap_congr fun s inside => sides_cell two (List.mem_range.mp row) (List.mem_range.mp inside)

theorem closed_welded {segments rings : Nat} (three : 3 ≤ segments) (two : 2 ≤ rings) :
    Closed ((faces segments rings).map (Triangle.map (weld segments rings))) := by
  have found {side : (Nat × Nat) × (Nat × Nat)} {r : Nat} (row : r < rings)
      (member : side ∈ (List.range segments).flatMap fun s => cellSides rings r s ((s + 1) % segments)) :
      ∃ s < segments, side ∈ cellSides rings r s ((s + 1) % segments) := by
    obtain ⟨s, counted, own⟩ := List.mem_flatMap.mp member
    exact ⟨s, List.mem_range.mp counted, own⟩
  refine closed_of_sides (.of_eq (sides_welded two)) ?_ ?_ ?_
  · rw [List.nodup_flatMap]
    constructor
    · intro r counted
      rw [List.nodup_flatMap]
      refine ⟨fun s inside => nodup_cellSides (by omega) (List.mem_range.mp inside), ?_⟩
      refine (List.pairwise_lt_range (n := segments)).imp_of_mem ?_
      intro s t inside within before side here there
      have row := List.mem_range.mp counted
      have same := eq_of_mem_cellSides three row (List.mem_range.mp inside) row (List.mem_range.mp within) here there
      omega
    · refine (List.pairwise_lt_range (n := rings)).imp_of_mem ?_
      intro r q counted other before side here there
      have row := List.mem_range.mp counted
      have below := List.mem_range.mp other
      obtain ⟨s, inside, here⟩ := found row here
      obtain ⟨t, within, there⟩ := found below there
      have same := eq_of_mem_cellSides three row inside below within here there
      omega
  · intro side member
    obtain ⟨r, counted, member⟩ := List.mem_flatMap.mp member
    obtain ⟨s, inside, own⟩ := found (List.mem_range.mp counted) member
    exact ne_of_mem_cellSides (by omega) inside own
  · intro side member
    obtain ⟨r, counted, member⟩ := List.mem_flatMap.mp member
    obtain ⟨s, inside, own⟩ := found (List.mem_range.mp counted) member
    obtain ⟨q, row, t, within, back⟩ := exists_swap_mem_cellSides two (List.mem_range.mp counted) inside own
    exact List.mem_flatMap.mpr ⟨q, List.mem_range.mpr row, List.mem_flatMap.mpr ⟨t, List.mem_range.mpr within, back⟩⟩

end Ball
end Arbor
