import Arbor.Proofs.Space.Volume
import Arbor.Proofs.Mesh.Closure

namespace Arbor

namespace Frustum

section Buffers

variable {α : Type} [Scalar α]

theorem eq_of_chunk {f : Frustum α} {n : Nat} {c : Chunk α} (drawn : f.chunk n = .ok c)
    (tall : (f.height == 0) = false) :
    c = ⟨(f.localPositions n).map fun p => (f.place p).single,
      (localNormals n ((f.baseRadius - f.topRadius) / f.height)).map fun v => (f.orientation.apply v).single,
      .ofPrimitive (faces n), []⟩ := by
  rw [chunk, slope_of_ne tall] at drawn
  obtain ⟨m, counted, drawn⟩ := Outcome.bind_eq_ok drawn
  cases drawn
  obtain rfl : m = n := Int.ofNat_inj.mp (eq_of_steppedLengthOf counted)
  rfl

theorem getElem?_ring {n i : Nat} (inside : i < n) (radius height : α) :
    (ring n radius height)[i]? =
      some ⟨radius * Scalar.cos (column n i), height, radius * Scalar.sin (column n i)⟩ := by
  rw [ring, List.getElem?_map, List.getElem?_range inside, Option.map_some]

theorem getElem?_side (f : Frustum α) {n i : Nat} (inside : i < n) :
    (f.localPositions n)[i]? = (ring n f.baseRadius 0)[i]? ∧
      (f.localPositions n)[n + i]? = (ring n f.topRadius f.height)[i]? := by
  have bottom := length_ring n f.baseRadius (0 : α)
  have top := length_ring n f.topRadius f.height
  rw [localPositions, List.append_assoc, List.append_assoc]
  constructor
  · rw [List.getElem?_append_left (by omega)]
  · rw [List.getElem?_append_right (by omega), bottom, Nat.add_sub_cancel_left,
      List.getElem?_append_left (by omega)]

theorem getElem?_centers (f : Frustum α) (n : Nat) :
    (f.localPositions n)[3 * n]? = some ⟨0, 0, 0⟩ ∧ (f.localPositions n)[4 * n + 1]? = some ⟨0, f.height, 0⟩ := by
  have bottom := length_ring n f.baseRadius (0 : α)
  have top := length_ring n f.topRadius f.height
  have lower : 3 * n - (n + n) = n := by omega
  have upper : 4 * n + 1 - (n + n + (n + 1)) = n := by omega
  simp only [localPositions, List.getElem?_append, List.length_append, List.length_singleton, bottom, top, lower, upper]
  constructor
  · rw [if_pos (by omega), if_neg (by omega), if_neg (by omega), Nat.sub_self]
    rfl
  · rw [if_neg (by omega), if_neg (by omega), Nat.sub_self]
    rfl

theorem getElem?_localNormals {n i : Nat} (inside : i < n) (slope : α) :
    (localNormals n slope)[i]? = (sideNormals n slope)[i]? ∧
      (localNormals n slope)[n + i]? = (sideNormals n slope)[i]? := by
  have side : (sideNormals n slope).length = n := by rw [sideNormals, List.length_map, List.length_range]
  rw [localNormals, List.append_assoc, List.append_assoc]
  constructor
  · rw [List.getElem?_append_left (by omega)]
  · rw [List.getElem?_append_right (by omega), side, Nat.add_sub_cancel_left, List.getElem?_append_left (by omega)]

theorem getElem?_capNormals (n : Nat) (slope : α) :
    (∀ v, 2 * n ≤ v → v ≤ 3 * n → (localNormals n slope)[v]? = some ⟨0, -1, 0⟩) ∧
      ∀ v, 3 * n + 1 ≤ v → v ≤ 4 * n + 1 → (localNormals n slope)[v]? = some ⟨0, 1, 0⟩ := by
  have side : (sideNormals n slope).length = n := by rw [sideNormals, List.length_map, List.length_range]
  simp only [localNormals, List.getElem?_append, List.length_append, List.length_replicate, side]
  constructor
  · intro v first last
    rw [if_pos (by omega), if_neg (by omega), List.getElem?_replicate, if_pos (by omega)]
  · intro v first last
    rw [if_neg (by omega), List.getElem?_replicate, if_pos (by omega)]

end Buffers

noncomputable def rim (radius height angle : ℝ) : Vec3 ℝ := ⟨radius * Real.cos angle, height, radius * Real.sin angle⟩

/-- What leads away from the axis at an angle, and up as much as the side narrows. -/
noncomputable def spoke (slope angle : ℝ) : Vec3 ℝ := ⟨Real.cos angle, slope, Real.sin angle⟩

noncomputable def lean (slope angle : ℝ) : Vec3 ℝ := (spoke slope angle).scale (spoke slope angle).norm⁻¹

theorem column_eq (n i : Nat) : (column n i : ℝ) = i * spread n := by
  have twice : (Scalar.ofInt (2 * i) : ℝ) = 2 * i := by
    show ((2 * i : Int) : ℝ) = 2 * i
    push_cast
    ring
  have count : (Scalar.ofInt n : ℝ) = n := Int.cast_natCast n
  have pi : (Scalar.pi : ℝ) = Real.pi := rfl
  rw [column, twice, count, pi, spread]
  ring

theorem turn_next {n i : Nat} (inside : i < n) :
    Real.cos (column n ((i + 1) % n)) = Real.cos (column n i + spread n) ∧
      Real.sin (column n ((i + 1) % n)) = Real.sin (column n i + spread n) := by
  have further : (column n i + spread n : ℝ) = (i + 1 : Nat) * spread n := by
    rw [column_eq, Nat.cast_add, Nat.cast_one]
    ring
  rw [further, column_eq]
  rcases next_column_cases inside with ⟨-, next⟩ | ⟨last, next⟩
  · rw [next]
    exact ⟨rfl, rfl⟩
  · have whole : (n : ℝ) * spread n = 2 * Real.pi := mul_spread (by omega)
    rw [next, last, whole, Nat.cast_zero, zero_mul, Real.cos_zero, Real.sin_zero, Real.cos_two_pi, Real.sin_two_pi]
    exact ⟨rfl, rfl⟩

theorem rim_next {n i : Nat} (inside : i < n) (radius height : ℝ) :
    rim radius height (column n ((i + 1) % n)) = rim radius height (column n i + spread n) := by
  rw [rim, rim, (turn_next inside).1, (turn_next inside).2]

theorem lean_next {n i : Nat} (inside : i < n) (slope : ℝ) :
    lean slope (column n ((i + 1) % n)) = lean slope (column n i + spread n) := by
  rw [lean, lean, spoke, spoke, (turn_next inside).1, (turn_next inside).2]

theorem norm_spoke_pos (slope angle : ℝ) : 0 < (spoke slope angle).norm := by
  refine Real.sqrt_pos.mpr ?_
  have unit := Real.sin_sq_add_cos_sq angle
  have square : (spoke slope angle).dot (spoke slope angle) = 1 + slope * slope := by
    simp only [Vec3.dot, spoke]
    linear_combination unit
  rw [square]
  nlinarith [mul_self_nonneg slope]

theorem norm_lean (slope angle : ℝ) : (lean slope angle).norm = 1 := by
  have long := norm_spoke_pos slope angle
  rw [lean, Vec3.norm_scale, abs_of_pos (inv_pos.mpr long)]
  exact inv_mul_cancel₀ long.ne'

theorem dot_lean (v : Vec3 ℝ) (slope angle : ℝ) :
    v.dot (lean slope angle) = (spoke slope angle).norm⁻¹ * v.dot (spoke slope angle) :=
  Vec3.dot_scale _ _ _

theorem dot_lean_pos {v : Vec3 ℝ} {slope angle : ℝ} (positive : 0 < v.dot (spoke slope angle)) :
    0 < v.dot (lean slope angle) := by
  rw [dot_lean]
  exact mul_pos (inv_pos.mpr (norm_spoke_pos slope angle)) positive

theorem getElem?_sideNormals {n i : Nat} (inside : i < n) (slope : ℝ) :
    (sideNormals n slope)[i]? = some (lean slope (column n i)) := by
  rw [sideNormals, List.getElem?_map, List.getElem?_range inside, Option.map_some]
  refine congrArg some ?_
  ext
  · exact div_eq_inv_mul _ _
  · exact div_eq_inv_mul _ _
  · exact div_eq_inv_mul _ _

theorem facing_low (r q h k a d : ℝ) {b : ℝ} (corner : b = a ∨ b = a + d) :
    (Triangle.facing ⟨rim r 0 a, rim q h a, rim r 0 (a + d)⟩).dot (spoke k b) =
      r * Real.sin d * (h + k * (r - q)) := by
  have unit := Real.sin_sq_add_cos_sq a
  rcases corner with rfl | rfl
  all_goals
    simp only [Triangle.facing, Vec3.cross, Vec3.sub_eq, Vec3.dot, rim, spoke, Real.sin_add, Real.cos_add]
    linear_combination (r * Real.sin d * (h + k * (r - q))) * unit

theorem facing_high (r q h k a d : ℝ) {b : ℝ} (corner : b = a ∨ b = a + d) :
    (Triangle.facing ⟨rim r 0 (a + d), rim q h a, rim q h (a + d)⟩).dot (spoke k b) =
      q * Real.sin d * (h + k * (r - q)) := by
  have unit := Real.sin_sq_add_cos_sq a
  rcases corner with rfl | rfl
  all_goals
    simp only [Triangle.facing, Vec3.cross, Vec3.sub_eq, Vec3.dot, rim, spoke, Real.sin_add, Real.cos_add]
    linear_combination (q * Real.sin d * (h + k * (r - q))) * unit

theorem facing_bottom (r a d : ℝ) :
    (Triangle.facing ⟨⟨0, 0, 0⟩, rim r 0 a, rim r 0 (a + d)⟩).dot ⟨0, -1, 0⟩ = r * r * Real.sin d := by
  have unit := Real.sin_sq_add_cos_sq a
  simp only [Triangle.facing, Vec3.cross, Vec3.sub_eq, Vec3.dot, rim, Real.sin_add, Real.cos_add]
  linear_combination (r * r * Real.sin d) * unit

theorem facing_top (q h a d : ℝ) :
    (Triangle.facing ⟨⟨0, h, 0⟩, rim q h (a + d), rim q h a⟩).dot ⟨0, 1, 0⟩ = q * q * Real.sin d := by
  have unit := Real.sin_sq_add_cos_sq a
  simp only [Triangle.facing, Vec3.cross, Vec3.sub_eq, Vec3.dot, rim, Real.sin_add, Real.cos_add]
  linear_combination (q * q * Real.sin d) * unit

theorem climb_pos {r q h : ℝ} (tall : 0 < h) : 0 < h + (r - q) / h * (r - q) := by
  have square : 0 ≤ (r - q) / h * (r - q) := by
    rw [div_mul_eq_mul_div]
    exact div_nonneg (mul_self_nonneg _) tall.le
  linarith

theorem getElem?_corner (f : Frustum ℝ) {n i : Nat} (inside : i < n) (slope : ℝ) :
    ((f.localPositions n)[i]? = some (rim f.baseRadius 0 (column n i)) ∧
      (f.localPositions n)[n + i]? = some (rim f.topRadius f.height (column n i))) ∧
      (localNormals n slope)[i]? = some (lean slope (column n i)) ∧
      (localNormals n slope)[n + i]? = some (lean slope (column n i)) := by
  refine ⟨⟨?_, ?_⟩, ?_, ?_⟩
  · exact (f.getElem?_side inside).1.trans (getElem?_ring inside _ _)
  · exact (f.getElem?_side inside).2.trans (getElem?_ring inside _ _)
  · exact (getElem?_localNormals inside slope).1.trans (getElem?_sideNormals inside slope)
  · exact (getElem?_localNormals inside slope).2.trans (getElem?_sideNormals inside slope)

section Outward

variable {f : Frustum ℝ} {n i : Nat} (three : 3 ≤ n) (thick : 0 < f.baseRadius ∧ 0 < f.topRadius)
  (inside : i < n)

include three thick inside

theorem outward_side (tall : 0 < f.height) :
    let normals := localNormals n ((f.baseRadius - f.topRadius) / f.height)
    Triangle.Outward ⟨i, n + i, (i + 1) % n⟩ (f.localPositions n) normals ∧
      Triangle.Outward ⟨(i + 1) % n, n + i, n + (i + 1) % n⟩ (f.localPositions n) normals := by
  have turn := sin_spread_pos three
  have climb := climb_pos (r := f.baseRadius) (q := f.topRadius) tall
  generalize (f.baseRadius - f.topRadius) / f.height = slope at climb ⊢
  obtain ⟨⟨bottom, top⟩, low, high⟩ := f.getElem?_corner inside slope
  obtain ⟨⟨later, above⟩, beside, beyond⟩ := f.getElem?_corner (Nat.mod_lt (i + 1) (by omega : 0 < n)) slope
  rw [rim_next inside] at later above
  rw [lean_next inside] at beside beyond
  constructor
  · have whole := mul_pos (mul_pos thick.1 turn) climb
    have here := dot_lean_pos (whole.trans_eq (facing_low _ f.topRadius _ _ (column n i) _ (.inl rfl)).symm)
    have there := dot_lean_pos (whole.trans_eq (facing_low _ f.topRadius _ _ (column n i) _ (.inr rfl)).symm)
    exact Triangle.outward_of_corners ⟨bottom, top, later⟩ ⟨low, high, beside⟩ here here there
  · have whole := mul_pos (mul_pos thick.2 turn) climb
    have here := dot_lean_pos (whole.trans_eq (facing_high _ _ _ _ (column n i) _ (.inl rfl)).symm)
    have there := dot_lean_pos (whole.trans_eq (facing_high _ _ _ _ (column n i) _ (.inr rfl)).symm)
    exact Triangle.outward_of_corners ⟨later, top, above⟩ ⟨beside, high, beyond⟩ there here there

theorem outward_caps (slope : ℝ) :
    Triangle.Outward ⟨3 * n, 2 * n + i, 2 * n + (i + 1) % n⟩ (f.localPositions n) (localNormals n slope) ∧
      Triangle.Outward ⟨4 * n + 1, 3 * n + 1 + (i + 1) % n, 3 * n + 1 + i⟩ (f.localPositions n)
        (localNormals n slope) := by
  have turn := sin_spread_pos three
  have next : (i + 1) % n < n := Nat.mod_lt _ (by omega)
  obtain ⟨bottom, top⟩ := (f.getElem?_corner inside slope).1
  obtain ⟨later, above⟩ := (f.getElem?_corner next slope).1
  rw [rim_next inside] at later above
  obtain ⟨lowest, highest⟩ := f.getElem?_centers n
  obtain ⟨down, up⟩ := getElem?_capNormals n slope
  have lower {k : Nat} (near : k < n) := down (2 * n + k) (by omega) (by omega)
  have upper {k : Nat} (near : k < n) := up (3 * n + 1 + k) (by omega) (by omega)
  constructor
  · have below := (mul_pos (mul_pos thick.1 thick.1) turn).trans_eq (facing_bottom _ (column n i) _).symm
    exact Triangle.outward_of_corners
      ⟨lowest, (f.getElem?_caps inside).1.trans bottom, (f.getElem?_caps next).1.trans later⟩
      ⟨down (3 * n) (by omega) le_rfl, lower inside, lower next⟩ below below below
  · have beyond := (mul_pos (mul_pos thick.2 thick.2) turn).trans_eq (facing_top _ f.height (column n i) _).symm
    exact Triangle.outward_of_corners
      ⟨highest, (f.getElem?_caps next).2.trans above, (f.getElem?_caps inside).2.trans top⟩
      ⟨up (4 * n + 1) (by omega) le_rfl, upper next, upper inside⟩ beyond beyond beyond

end Outward

/-- Every face is seen from the side to which the normals at its corners point. -/
theorem outward_of_mem_faces {f : Frustum ℝ} {n : Nat} (three : 3 ≤ n) (thick : 0 < f.baseRadius ∧ 0 < f.topRadius)
    (tall : 0 < f.height) {t : Triangle Nat} (member : t ∈ faces n) :
    t.Outward (f.localPositions n) (localNormals n ((f.baseRadius - f.topRadius) / f.height)) := by
  rw [faces, List.mem_append, List.mem_flatMap, List.mem_flatMap] at member
  rcases member with ⟨i, counted, side⟩ | ⟨i, counted, cap⟩
  · obtain ⟨low, high⟩ := outward_side three thick (List.mem_range.mp counted) tall
    rcases List.mem_pair.mp side with rfl | rfl
    · exact low
    · exact high
  · obtain ⟨bottom, top⟩ := outward_caps three thick (List.mem_range.mp counted)
      ((f.baseRadius - f.topRadius) / f.height)
    rcases List.mem_pair.mp cap with rfl | rfl
    · exact bottom
    · exact top

end Frustum

end Arbor
