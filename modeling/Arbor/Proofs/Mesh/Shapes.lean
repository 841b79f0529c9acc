import Mathlib.Algebra.BigOperators.Ring.List
import Mathlib.Tactic.Ring
import Arbor.Mesh.Cylinder
import Arbor.Mesh.Sphere
import Arbor.Proofs.Outcome

namespace Arbor

namespace Triangle

def Within (first last : Nat) (t : Triangle Nat) : Prop :=
  (∀ i ∈ t.toList, first ≤ i ∧ i < last) ∧ t.toList.Nodup

theorem within_iff {first last a b c : Nat} :
    Within first last ⟨a, b, c⟩ ↔
      ((first ≤ a ∧ a < last) ∧ (first ≤ b ∧ b < last) ∧ first ≤ c ∧ c < last) ∧ a ≠ b ∧ a ≠ c ∧ b ≠ c := by
  simp [Within, toList, and_assoc]

end Triangle

structure Chunk.Shaped {α : Type} (c : Chunk α) (count : Nat) (rows : List (Triangle Nat)) : Prop where
  vertices : c.vertexCount = count
  faces : c.faces = .triangles (rows.map (Triangle.map UInt32.ofNat))
  within : ∀ t ∈ rows, t.Within 0 count

theorem Faces.ofPrimitive_of_ne_nil {rows : List (Triangle Nat)} (filled : rows ≠ []) :
    ofPrimitive rows = triangles (rows.map (Triangle.map UInt32.ofNat)) := by
  cases rows with
  | nil => exact absurd rfl filled
  | cons first rest => rfl

namespace Frustum

theorem length_faces (n : Nat) : (faces n).length = 4 * n := by
  simp [faces]
  omega

theorem faces_ne_nil {n : Nat} (filled : 0 < n) : faces n ≠ [] := by
  rw [← List.length_pos_iff, length_faces]
  omega

theorem next_column {n i : Nat} (inside : i < n) (two : 2 ≤ n) : (i + 1) % n < n ∧ (i + 1) % n ≠ i := by
  refine ⟨Nat.mod_lt _ (by omega), ?_⟩
  by_cases last : i + 1 = n
  · rw [last, Nat.mod_self]
    omega
  · rw [Nat.mod_eq_of_lt (by omega)]
    omega

theorem within_faces {n : Nat} (two : 2 ≤ n) : ∀ t ∈ faces n, t.Within 0 (4 * n + 2) := by
  intro t member
  rw [faces, List.mem_append, List.mem_flatMap, List.mem_flatMap] at member
  rcases member with ⟨i, counted, side⟩ | ⟨i, counted, cap⟩
  · have inside := List.mem_range.mp counted
    obtain ⟨below, other⟩ := next_column inside two
    rcases List.mem_pair.mp side with rfl | rfl
    all_goals
      dsimp only
      rw [Triangle.within_iff]
      omega
  · have inside := List.mem_range.mp counted
    obtain ⟨below, other⟩ := next_column inside two
    rcases List.mem_pair.mp cap with rfl | rfl
    all_goals
      dsimp only
      rw [Triangle.within_iff]
      omega

variable {α : Type} [Scalar α]

theorem slope_of_ne {f : Frustum α} (tall : (f.height == 0) = false) :
    f.slope = .ok ((f.baseRadius - f.topRadius) / f.height) := by
  rw [slope, tall, if_neg Bool.false_ne_true]

theorem shaped_of_drawn {f : Frustum α} {n : Nat} (two : 2 ≤ n) {c : Chunk α} (drawn : f.chunk n = .ok c) :
    c.Shaped (4 * n + 2) (faces n) := by
  obtain ⟨m, counted, drawn⟩ := Outcome.bind_eq_ok drawn
  obtain ⟨slope, -, drawn⟩ := Outcome.bind_eq_ok drawn
  cases drawn
  obtain rfl : m = n := Int.ofNat_inj.mp (eq_of_steppedLengthOf counted)
  refine ⟨?_, Faces.ofPrimitive_of_ne_nil (faces_ne_nil (by omega)), within_faces two⟩
  simp [Chunk.vertexCount, localPositions, ring]
  omega

theorem chunk_of_room {f : Frustum α} {n : Nat} (three : 3 ≤ n) (room : (n : Int) < roomLimit)
    (tall : (f.height == 0) = false) : ∃ c, f.chunk n = .ok c ∧ c.Shaped (4 * n + 2) (faces n) := by
  obtain ⟨c, drawn⟩ : ∃ c, f.chunk n = .ok c := by
    rw [chunk, steppedLengthOf_of_lt room, Outcome.ok_bind, slope_of_ne tall]
    exact ⟨_, rfl⟩
  exact ⟨c, drawn, shaped_of_drawn (by omega) drawn⟩

end Frustum

namespace Ball

theorem length_faces (segments rings : Nat) : (faces segments rings).length = 2 * segments * (rings - 1) := by
  have upper : ((List.range rings).map fun r => if r = 0 then 0 else 1).sum = rings - 1 := by
    cases rings with
    | zero => rfl
    | succ n => simp [List.range_succ_eq_map, Function.comp_def]
  have lower : ((List.range rings).map fun r => if r + 1 = rings then 0 else 1).sum = rings - 1 := by
    cases rings with
    | zero => rfl
    | succ n =>
        have before : (List.range n).map (fun r => if r = n then 0 else 1) = List.replicate n 1 := by
          rw [List.eq_replicate_iff]
          refine ⟨by simp, ?_⟩
          intro x member
          obtain ⟨r, counted, rfl⟩ := List.mem_map.mp member
          have early := List.mem_range.mp counted
          rw [if_neg (by omega)]
        simp [List.range_succ, before]
  have row (r s : Nat) : (cell segments rings r s).length =
      (if r = 0 then 0 else 1) + if r + 1 = rings then 0 else 1 := by
    rw [cell, List.length_append]
    split <;> split <;> rfl
  calc
    (faces segments rings).length =
        ((List.range rings).map fun r =>
          segments * ((if r = 0 then 0 else 1) + if r + 1 = rings then 0 else 1)).sum := by
      simp [faces, List.length_flatMap, row]
    _ = segments * ((rings - 1) + (rings - 1)) := by
      rw [List.sum_map_mul_left, List.sum_map_add, upper, lower]
    _ = 2 * segments * (rings - 1) := by ring

theorem within_faces {segments : Nat} (positive : 1 ≤ segments) (rings : Nat) :
    ∀ t ∈ faces segments rings, t.Within 0 ((rings + 1) * (segments + 1)) := by
  intro t member
  obtain ⟨r, row, member⟩ := List.mem_flatMap.mp member
  obtain ⟨s, column, member⟩ := List.mem_flatMap.mp member
  have left := List.mem_range.mp column
  -- The last vertex that a cell touches is one column further in the row below it.
  have above : (r + 1) * (segments + 1) ≤ rings * (segments + 1) := Nat.mul_le_mul_right _ (List.mem_range.mp row)
  rw [Nat.add_mul, Nat.one_mul] at above ⊢
  rw [cell, List.mem_append] at member
  rcases member with upper | lower
  · split at upper
    · cases upper
    · rcases List.mem_singleton.mp upper with rfl
      rw [Triangle.within_iff]
      omega
  · split at lower
    · cases lower
    · rcases List.mem_singleton.mp lower with rfl
      rw [Triangle.within_iff]
      omega

variable {α : Type} [Scalar α]

omit [Scalar α] in
theorem markCount_of_lt {k : Nat} (room : (k : Int) < roomLimit) : markCount (α := α) k = .ok k := by
  have word : roomLimit < Int.pow 2 63 - 512 := by decide
  have early : isFirstBeyond k = false := by
    rw [isFirstBeyond, Bool.and_eq_false_iff]
    exact .inl (decide_eq_false (by omega))
  rw [markCount, early, if_neg Bool.false_ne_true, steppedLengthOf_of_lt room]

theorem length_directions (rows columns : Nat) : (directions rows columns : List (Vec3 α)).length = rows * columns := by
  simp [directions, List.length_flatMap]

omit [Scalar α] in
theorem eq_of_markCount {n : Int} {k : Nat} (counted : markCount (α := α) n = .ok k) : (k : Int) = n := by
  rw [markCount] at counted
  split at counted
  · cases counted
  · exact eq_of_steppedLengthOf counted

theorem eq_of_chunk {b : Ball α} {segments rings : Nat} {c : Chunk α} (drawn : b.chunk segments rings = .ok c) :
    c = ⟨(directions (rings + 1) (segments + 1)).map fun v => (b.place v).single,
      (directions (rings + 1) (segments + 1)).map Vec3.single, .ofPrimitive (faces segments rings), []⟩ := by
  obtain ⟨rows, high, drawn⟩ := Outcome.bind_eq_ok drawn
  obtain ⟨columns, wide, drawn⟩ := Outcome.bind_eq_ok drawn
  obtain ⟨room, -, drawn⟩ := Outcome.bind_eq_ok drawn
  cases drawn
  obtain rfl : rows = rings + 1 := Int.ofNat_inj.mp (eq_of_markCount high)
  obtain rfl : columns = segments + 1 := Int.ofNat_inj.mp (eq_of_markCount wide)
  rfl

theorem shaped_of_drawn {b : Ball α} {segments rings : Nat} (positive : 1 ≤ segments) (two : 2 ≤ rings) {c : Chunk α}
    (drawn : b.chunk segments rings = .ok c) : c.Shaped ((rings + 1) * (segments + 1)) (faces segments rings) := by
  have filled : faces segments rings ≠ [] := by
    rw [← List.length_pos_iff, length_faces]
    exact Nat.mul_pos (by omega) (by omega)
  rw [eq_of_chunk drawn]
  exact ⟨(List.length_map _).trans (length_directions _ _), Faces.ofPrimitive_of_ne_nil filled,
    within_faces positive rings⟩

theorem chunk_of_grid (b : Ball α) {segments rings : Nat} (positive : 1 ≤ segments) (two : 2 ≤ rings)
    (room : ((rings + 1) * (segments + 1) : Nat) ≤ roomLimit) :
    ∃ c, b.chunk segments rings = .ok c ∧ c.Shaped ((rings + 1) * (segments + 1)) (faces segments rings) := by
  have high : ((rings + 1 : Nat) : Int) < roomLimit := by
    have less : (rings + 1) * 2 ≤ (rings + 1) * (segments + 1) := Nat.mul_le_mul_left _ (by omega)
    omega
  have wide : ((segments + 1 : Nat) : Int) < roomLimit := by
    have less : 3 * (segments + 1) ≤ (rings + 1) * (segments + 1) := Nat.mul_le_mul_right _ (by omega)
    omega
  have held : lengthBelow (α := α) (roomLimit + 1) ((rings + 1 : Nat) * (segments + 1 : Nat) : Int) =
      .ok ((rings + 1) * (segments + 1)) := by
    rw [← Nat.cast_mul]
    exact lengthBelow_of_lt (by decide) (by omega)
  have rows : (rings : Int) + 1 = (rings + 1 : Nat) := by omega
  have columns : (segments : Int) + 1 = (segments + 1 : Nat) := by omega
  obtain ⟨c, drawn⟩ : ∃ c, b.chunk segments rings = .ok c := by
    rw [chunk, rows, columns, markCount_of_lt high, markCount_of_lt wide, Outcome.ok_bind, Outcome.ok_bind, held]
    exact ⟨_, rfl⟩
  exact ⟨c, drawn, shaped_of_drawn positive two drawn⟩

theorem chunk_of_room (b : Ball α) {n : Nat} (three : 3 ≤ n) (room : ((n + 1) ^ 2 : Nat) ≤ roomLimit) :
    ∃ c, b.chunk n n = .ok c ∧ c.Shaped ((n + 1) ^ 2) (faces n n) := by
  rw [Nat.pow_two] at room ⊢
  exact chunk_of_grid b (by omega) (by omega) room

end Ball

end Arbor
