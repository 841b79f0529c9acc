import Mathlib.Data.Finset.Card
import Mathlib.Data.List.Nodup
import Arbor.Mesh.Frame
import Arbor.Proofs.Mesh.Shapes
import Arbor.Proofs.Mesh.Stacking

/-!
# Closure

A frustum is closed once the rings of its side are one with the rings of its caps: each of its edges lies between two
triangles, which go along it in opposite directions. The vertices that become one lie at one place.
-/

namespace Arbor

namespace Triangle

variable {ι : Type}

def sides (t : Triangle ι) : List (ι × ι) := [(t.a, t.b), (t.b, t.c), (t.c, t.a)]

theorem nodup_toList_iff {t : Triangle ι} : t.toList.Nodup ↔ ∀ side ∈ t.sides, side.1 ≠ side.2 := by
  simp [toList, sides, and_comm, eq_comm, and_assoc]

end Triangle

/-- A surface without a border whose triangles agree about which side is the outside: no triangle is degenerate, and
no two of them go along an edge in one direction, but some other one goes back along it. -/
structure Closed {ι : Type} [DecidableEq ι] (faces : List (Triangle ι)) : Prop where
  proper : ∀ t ∈ faces, t.toList.Nodup
  along : ∀ side ∈ faces.flatMap Triangle.sides, (faces.flatMap Triangle.sides).count side = 1
  back : ∀ side ∈ faces.flatMap Triangle.sides, (faces.flatMap Triangle.sides).count side.swap = 1

theorem closed_of_sides {ι : Type} [DecidableEq ι] {faces : List (Triangle ι)} {sides : List (ι × ι)}
    (each : (faces.flatMap Triangle.sides).Perm sides) (distinct : sides.Nodup)
    (proper : ∀ side ∈ sides, side.1 ≠ side.2) (back : ∀ side ∈ sides, side.swap ∈ sides) : Closed faces where
  proper := by
    intro t member
    rw [Triangle.nodup_toList_iff]
    intro side own
    exact proper side (each.mem_iff.mp (List.mem_flatMap.mpr ⟨t, member, own⟩))
  along := by
    intro side member
    rw [each.count_eq]
    exact List.count_eq_one_of_mem distinct (each.mem_iff.mp member)
  back := by
    intro side member
    rw [each.count_eq]
    exact List.count_eq_one_of_mem distinct (back side (each.mem_iff.mp member))

namespace Frustum

/-- One number for each place: the ring of a cap takes the numbers of the ring of the side that it lies on. -/
def weld (n v : Nat) : Nat :=
  if 2 * n ≤ v ∧ v < 3 * n then v - 2 * n
  else if 3 * n + 1 ≤ v ∧ v < 4 * n + 1 then v - (3 * n + 1) + n
  else v

theorem weld_side {n v : Nat} (side : v < 2 * n) : weld n v = v := by
  rw [weld, if_neg (by omega), if_neg (by omega)]

theorem weld_bottom {n i : Nat} (inside : i < n) : weld n (2 * n + i) = i := by
  rw [weld, if_pos (by omega)]
  omega

theorem weld_top {n i : Nat} (inside : i < n) : weld n (3 * n + 1 + i) = n + i := by
  rw [weld, if_neg (by omega), if_pos (by omega)]
  omega

theorem weld_bottom_center (n : Nat) : weld n (3 * n) = 3 * n := by
  rw [weld, if_neg (by omega), if_neg (by omega)]

theorem weld_top_center (n : Nat) : weld n (4 * n + 1) = 4 * n + 1 := by
  rw [weld, if_neg (by omega), if_neg (by omega)]

theorem image_weld {n : Nat} (positive : 0 < n) :
    (Finset.range (4 * n + 2)).image (weld n) = insert (3 * n) (insert (4 * n + 1) (Finset.range (2 * n))) := by
  ext v
  simp only [Finset.mem_image, Finset.mem_range, Finset.mem_insert]
  constructor
  · rintro ⟨w, inside, rfl⟩
    rw [weld]
    split
    · omega
    · split <;> omega
  · rintro (rfl | rfl | side)
    · exact ⟨3 * n, by omega, weld_bottom_center n⟩
    · exact ⟨4 * n + 1, by omega, weld_top_center n⟩
    · exact ⟨v, by omega, weld_side side⟩

theorem card_image_weld {n : Nat} (positive : 0 < n) : ((Finset.range (4 * n + 2)).image (weld n)).card = 2 * n + 2 := by
  rw [image_weld positive, Finset.card_insert_of_notMem, Finset.card_insert_of_notMem, Finset.card_range]
  · rw [Finset.mem_range]
    omega
  · rw [Finset.mem_insert, Finset.mem_range]
    omega

def inner (n i next : Nat) : List (Nat × Nat) := [(n + i, next), (i, next), (n + i, n + next)]

def border (n i : Nat) : List (Nat × Nat) := [(i, n + i), (3 * n, i), (n + i, 4 * n + 1)]

/-- The sides of the four triangles of a column: its own ones in both directions, and a border on each hand. -/
def columnSides (n i next : Nat) : List (Nat × Nat) :=
  inner n i next ++ (inner n i next).map Prod.swap ++ (border n i ++ (border n next).map Prod.swap)

theorem columnSides_eq (n i next : Nat) : columnSides n i next =
    [(n + i, next), (i, next), (n + i, n + next), (next, n + i), (next, i), (n + next, n + i),
      (i, n + i), (3 * n, i), (n + i, 4 * n + 1), (n + next, next), (next, 3 * n), (4 * n + 1, n + next)] := rfl

theorem sides_welded (n : Nat) :
    (((faces n).map (Triangle.map (weld n))).flatMap Triangle.sides).Perm
      ((List.range n).flatMap fun i => columnSides n i ((i + 1) % n)) := by
  rw [faces, List.map_append, List.flatMap_append, List.map_flatMap, List.map_flatMap, List.flatMap_assoc,
    List.flatMap_assoc]
  refine (List.flatMap_append_perm _ _ _).trans (List.Perm.flatMap_left _ fun i counted => ?_)
  have inside := List.mem_range.mp counted
  have next : (i + 1) % n < n := Nat.mod_lt _ (by omega)
  have rings {v : Nat} (low : v < n) : weld n v = v ∧ weld n (n + v) = n + v :=
    ⟨weld_side (by omega), weld_side (by omega)⟩
  simp only [List.map_cons, List.map_nil, List.flatMap_cons, List.flatMap_nil, List.cons_append, List.nil_append,
    Triangle.map, Triangle.sides, rings inside, rings next, weld_bottom inside, weld_bottom next, weld_top inside,
    weld_top next, weld_bottom_center, weld_top_center, columnSides_eq]
  rw [List.perm_iff_count]
  intro side
  simp only [List.count_cons, List.count_nil]
  ring

theorem next_column_cases {n i : Nat} (inside : i < n) :
    (i + 1 < n ∧ (i + 1) % n = i + 1) ∨ i + 1 = n ∧ (i + 1) % n = 0 := by
  rcases Nat.lt_or_ge (i + 1) n with early | last
  · exact .inl ⟨early, Nat.mod_eq_of_lt early⟩
  · obtain rfl : n = i + 1 := by omega
    exact .inr ⟨rfl, Nat.mod_self _⟩

theorem exists_column_before {n i : Nat} (inside : i < n) : ∃ k < n, (k + 1) % n = i := by
  cases i with
  | zero => exact ⟨n - 1, by omega, by rw [Nat.sub_add_cancel inside, Nat.mod_self]⟩
  | succ k => exact ⟨k, by omega, Nat.mod_eq_of_lt inside⟩

theorem eq_of_mem_columnSides {n i k : Nat} (three : 3 ≤ n) (inside : i < n) (within : k < n) {side : Nat × Nat}
    (here : side ∈ columnSides n i ((i + 1) % n)) (there : side ∈ columnSides n k ((k + 1) % n)) : i = k := by
  obtain ⟨u, v⟩ := side
  have first := next_column_cases inside
  have second := next_column_cases within
  simp only [columnSides_eq, List.mem_cons, Prod.mk.injEq, List.not_mem_nil, or_false] at here there
  generalize (i + 1) % n = next at first here
  generalize (k + 1) % n = after at second there
  rcases here with here | here | here | here | here | here | here | here | here | here | here | here
  all_goals omega

theorem nodup_columnSides {n i : Nat} (three : 3 ≤ n) (inside : i < n) : (columnSides n i ((i + 1) % n)).Nodup := by
  have next := next_column_cases inside
  simp only [columnSides_eq, List.nodup_cons, List.mem_cons, Prod.mk.injEq, List.not_mem_nil, or_false,
    not_false_eq_true, List.nodup_nil, and_true]
  omega

/-- Each side is gone back along in its own column, in the one before it or in the next one. -/
theorem exists_swap_mem_columnSides {n i : Nat} (inside : i < n) {side : Nat × Nat}
    (own : side ∈ columnSides n i ((i + 1) % n)) : ∃ k < n, side.swap ∈ columnSides n k ((k + 1) % n) := by
  rw [columnSides, List.mem_append, List.mem_append, List.mem_append] at own
  rcases own with (along | back) | (first | last)
  · refine ⟨i, inside, List.mem_append_left _ (List.mem_append_right _ ?_)⟩
    exact List.mem_map_of_mem along
  · refine ⟨i, inside, List.mem_append_left _ (List.mem_append_left _ ?_)⟩
    obtain ⟨along, member, rfl⟩ := List.mem_map.mp back
    exact member
  · obtain ⟨before, early, turn⟩ := exists_column_before inside
    refine ⟨before, early, List.mem_append_right _ (List.mem_append_right _ ?_)⟩
    rw [turn]
    exact List.mem_map_of_mem first
  · refine ⟨(i + 1) % n, Nat.mod_lt _ (by omega), List.mem_append_right _ (List.mem_append_left _ ?_)⟩
    obtain ⟨first, member, rfl⟩ := List.mem_map.mp last
    exact member

theorem ne_of_mem_columnSides {n i : Nat} (two : 2 ≤ n) (inside : i < n) {side : Nat × Nat}
    (own : side ∈ columnSides n i ((i + 1) % n)) : side.1 ≠ side.2 := by
  obtain ⟨u, v⟩ := side
  obtain ⟨below, other⟩ := next_column inside two
  simp only [columnSides_eq, List.mem_cons, Prod.mk.injEq, List.not_mem_nil, or_false] at own
  omega

theorem closed_welded {n : Nat} (three : 3 ≤ n) : Closed ((faces n).map (Triangle.map (weld n))) := by
  refine closed_of_sides (sides_welded n) ?_ ?_ ?_
  · rw [List.nodup_flatMap]
    refine ⟨fun i counted => nodup_columnSides three (List.mem_range.mp counted), ?_⟩
    refine (List.pairwise_lt_range (n := n)).imp_of_mem ?_
    intro i k counted within before side here there
    have same := eq_of_mem_columnSides three (List.mem_range.mp counted) (List.mem_range.mp within) here there
    omega
  · intro side member
    obtain ⟨i, counted, own⟩ := List.mem_flatMap.mp member
    exact ne_of_mem_columnSides (by omega) (List.mem_range.mp counted) own
  · intro side member
    obtain ⟨i, counted, own⟩ := List.mem_flatMap.mp member
    obtain ⟨k, within, back⟩ := exists_swap_mem_columnSides (List.mem_range.mp counted) own
    exact List.mem_flatMap.mpr ⟨k, List.mem_range.mpr within, back⟩

theorem mem_faces {n i : Nat} (inside : i < n) :
    ⟨i, n + i, (i + 1) % n⟩ ∈ faces n ∧ ⟨3 * n, 2 * n + i, 2 * n + (i + 1) % n⟩ ∈ faces n ∧
      ⟨4 * n + 1, 3 * n + 1 + (i + 1) % n, 3 * n + 1 + i⟩ ∈ faces n := by
  have counted := List.mem_range.mpr inside
  rw [faces]
  refine ⟨List.mem_append_left _ ?_, List.mem_append_right _ ?_, List.mem_append_right _ ?_⟩
  all_goals
    refine List.mem_flatMap.mpr ⟨i, counted, ?_⟩
    simp

theorem exists_face_of_lt {n v : Nat} (positive : 0 < n) (inside : v < 4 * n + 2) : ∃ t ∈ faces n, v ∈ t.toList := by
  have place : (∃ i < n, v = i ∨ v = n + i ∨ v = 2 * n + i ∨ v = 3 * n + 1 + i) ∨ v = 3 * n ∨ v = 4 * n + 1 := by
    have ranges : v < n ∨ (n ≤ v ∧ v < 2 * n) ∨ (2 * n ≤ v ∧ v < 3 * n) ∨ v = 3 * n ∨
        (3 * n + 1 ≤ v ∧ v < 4 * n + 1) ∨ v = 4 * n + 1 := by omega
    rcases ranges with low | high | bottom | center | top | center
    · exact .inl ⟨v, low, .inl rfl⟩
    · exact .inl ⟨v - n, by omega, by omega⟩
    · exact .inl ⟨v - 2 * n, by omega, by omega⟩
    · exact .inr (.inl center)
    · exact .inl ⟨v - (3 * n + 1), by omega, by omega⟩
    · exact .inr (.inr center)
  rcases place with ⟨i, within, rfl | rfl | rfl | rfl⟩ | rfl | rfl
  · exact ⟨_, (mem_faces within).1, by simp [Triangle.toList]⟩
  · exact ⟨_, (mem_faces within).1, by simp [Triangle.toList]⟩
  · exact ⟨_, (mem_faces within).2.1, by simp [Triangle.toList]⟩
  · exact ⟨_, (mem_faces within).2.2, by simp [Triangle.toList]⟩
  · exact ⟨_, (mem_faces positive).2.1, by simp [Triangle.toList]⟩
  · exact ⟨_, (mem_faces positive).2.2, by simp [Triangle.toList]⟩

variable {α : Type} [Scalar α]

theorem length_ring (n : Nat) (radius height : α) : (ring n radius height).length = n := by
  rw [ring, List.length_map, List.length_range]

theorem getElem?_caps (f : Frustum α) {n i : Nat} (inside : i < n) :
    (f.localPositions n)[2 * n + i]? = (f.localPositions n)[i]? ∧
      (f.localPositions n)[3 * n + 1 + i]? = (f.localPositions n)[n + i]? := by
  have bottom := length_ring n f.baseRadius (0 : α)
  have top := length_ring n f.topRadius f.height
  have lower : 2 * n + i - (n + n) = i := by omega
  have upper : 3 * n + 1 + i - (n + n + (n + 1)) = i := by omega
  have side : n + i - n = i := by omega
  simp only [localPositions, List.getElem?_append, List.length_append, List.length_singleton, bottom, top, lower, upper,
    side]
  constructor
  · rw [if_pos (by omega), if_neg (by omega), if_pos inside, if_pos (by omega), if_pos (by omega), if_pos inside]
  · rw [if_neg (by omega), if_pos inside, if_pos (by omega), if_pos (by omega), if_neg (by omega)]

theorem getElem?_weld (f : Frustum α) (n v : Nat) : (f.localPositions n)[v]? = (f.localPositions n)[weld n v]? := by
  rw [weld]
  split
  · rename_i bottom
    obtain ⟨i, rfl⟩ := Nat.exists_eq_add_of_le bottom.1
    rw [(f.getElem?_caps (by omega)).1, Nat.add_sub_cancel_left]
  · split
    · rename_i top
      obtain ⟨i, rfl⟩ := Nat.exists_eq_add_of_le top.1
      rw [(f.getElem?_caps (by omega)).2, Nat.add_sub_cancel_left, Nat.add_comm]
    · rfl

theorem positions_of_chunk {f : Frustum α} {n : Nat} {c : Chunk α} (drawn : f.chunk n = .ok c) :
    c.positions = (f.localPositions n).map fun p => (f.place p).single := by
  obtain ⟨m, counted, drawn⟩ := Outcome.bind_eq_ok drawn
  obtain ⟨slope, -, drawn⟩ := Outcome.bind_eq_ok drawn
  cases drawn
  obtain rfl : m = n := Int.ofNat_inj.mp (eq_of_steppedLengthOf counted)
  rfl

theorem mapM_of_draft {f : Frustum α} {frame : Frame α} {n : Nat} {c : DraftChunk α} (drawn : f.draft frame n = .ok c) :
    (f.localPositions n).mapM (fun p => do return (← frame.place p).map Scalar.single) = .ok c.positions ∧
      c.faces = .ofPrimitive (faces n) := by
  obtain ⟨m, counted, drawn⟩ := Outcome.bind_eq_ok drawn
  obtain ⟨slope, -, drawn⟩ := Outcome.bind_eq_ok drawn
  obtain ⟨rows, placed, drawn⟩ := Outcome.bind_eq_ok drawn
  cases drawn
  obtain rfl : m = n := Int.ofNat_inj.mp (eq_of_steppedLengthOf counted)
  exact ⟨placed, rfl⟩

/-- A frustum is closed when vertices with one number are taken as one: four triangles a column then join two vertices
a column and the two centers. Vertices with one number have the same coordinates, wherever the frustum lies. -/
theorem closed_surface {n : Nat} (three : 3 ≤ n) :
    (faces n).length = 4 * n ∧ Closed ((faces n).map (Triangle.map (weld n))) ∧
      ((Finset.range (4 * n + 2)).image (weld n)).card = 2 * n + 2 ∧
      (∀ v < 4 * n + 2, ∃ t ∈ (faces n).map (Triangle.map (weld n)), weld n v ∈ t.toList) ∧
      (∀ f : Frustum α, (f.height == 0) = false → (n : Int) < roomLimit →
        ∃ c, f.chunk n = .ok c ∧ c.Shaped (4 * n + 2) (faces n) ∧
          (4 * n + 2 ≤ 2 ^ 32 → c.faces.toTriangles.map (Triangle.map UInt32.toNat) = faces n) ∧
          ∀ v w, weld n v = weld n w → c.positions[v]? = c.positions[w]?) ∧
      ∀ (f : Frustum α) frame c, f.draft frame n = .ok c →
        c.faces = .triangles ((faces n).map (Triangle.map UInt32.ofNat)) ∧
          ∀ v w, weld n v = weld n w → c.positions[v]? = c.positions[w]? := by
  have positive : 0 < n := by omega
  refine ⟨length_faces n, closed_welded three, card_image_weld positive, ?_, ?_, ?_⟩
  · intro v inside
    obtain ⟨t, member, corner⟩ := exists_face_of_lt positive inside
    exact ⟨_, List.mem_map_of_mem member, List.mem_map_of_mem (f := weld n) corner⟩
  · intro f tall room
    obtain ⟨c, drawn, shaped⟩ := chunk_of_room three room tall
    refine ⟨c, drawn, shaped, ?_, ?_⟩
    · intro wide
      rw [shaped.faces, Faces.toTriangles, List.map_map]
      refine (List.map_congr_left fun t member => ?_).trans (List.map_id _)
      exact Triangle.toNat_ofNat (shaped.within t member) wide
    · intro v w one
      rw [positions_of_chunk drawn, List.getElem?_map, List.getElem?_map, f.getElem?_weld, one, ← f.getElem?_weld]
  · intro f frame c drawn
    obtain ⟨placed, rows⟩ := mapM_of_draft drawn
    refine ⟨rows.trans (Faces.ofPrimitive_of_ne_nil (faces_ne_nil positive)), ?_⟩
    intro v w one
    refine Outcome.getElem?_eq_of_mapM placed ?_
    rw [f.getElem?_weld, one, ← f.getElem?_weld]

theorem closed_surface_three : Closed ((faces 3).map (Triangle.map (weld 3))) ∧
    ∃ c, (⟨0, Mat3.identity, 1, 1, 1⟩ : Frustum Float).chunk (3 : Nat) = .ok c ∧ c.positions[0]? = c.positions[6]? := by
  obtain ⟨-, closed, -, -, lies, -⟩ := closed_surface (α := Float) (n := 3) (by decide)
  obtain ⟨c, drawn, -, -, same⟩ := lies ⟨0, Mat3.identity, 1, 1, 1⟩ rfl (by decide)
  exact ⟨closed, c, drawn, same 0 6 (by decide)⟩

end Frustum

end Arbor
