import Arbor.Proofs.Space.Volume
import Arbor.Proofs.Wind.Checking
import Arbor.Proofs.Wind.Pushing

namespace Arbor

namespace Wind

/-- A direction that does not point straight up or down. -/
def Level (v : Vec3 ℝ) : Prop := ¬ (v.x = 0 ∧ v.z = 0)

variable {v : Vec3 ℝ} {wind : Wind ℝ}

theorem norm_flat_pos (level : Level v) : 0 < v.flat.norm := by
  refine Real.sqrt_pos.mpr ?_
  simp only [Vec3.dot, Vec3.flat]
  rcases not_and_or.mp level with wide | deep
  · nlinarith [mul_self_pos.mpr wide, mul_self_nonneg v.z]
  · nlinarith [mul_self_pos.mpr deep, mul_self_nonneg v.x]

theorem axes_of_level (level : Level v) : axes v = .ok (heading v, sideways v) :=
  axes_of_ne (decide_eq_false (norm_flat_pos level).ne')

theorem heading_eq (v : Vec3 ℝ) : heading v = v.flat.scale v.flat.norm⁻¹ := by
  ext <;> exact (inv_mul_eq_div _ _).symm

theorem norm_heading (level : Level v) : (heading v).norm = 1 := by
  have long := norm_flat_pos level
  rw [heading_eq, Vec3.norm_scale, abs_of_pos (inv_pos.mpr long), inv_mul_cancel₀ long.ne']

theorem heading_y (v : Vec3 ℝ) : (heading v).y = 0 := zero_div _

theorem heading_square (level : Level v) : (heading v).x * (heading v).x + (heading v).z * (heading v).z = 1 := by
  have unit := (heading v).norm_mul_self
  rw [norm_heading level, Vec3.dot, heading_y] at unit
  linarith

/-- A multiple of a direction above zero, however much it points up, has the same axes. -/
theorem heading_scale {k : ℝ} (forward : 0 < k) (level : Level v) (rise : ℝ) :
    heading ⟨k * v.x, rise, k * v.z⟩ = heading v := by
  have long := norm_flat_pos level
  have flat : Vec3.flat ⟨k * v.x, rise, k * v.z⟩ = v.flat.scale k := by
    ext <;> simp [Vec3.flat, Vec3.scale]
  rw [heading_eq, flat, Vec3.norm_scale, abs_of_pos forward, heading_eq]
  ext <;> simp only [Vec3.scale, mul_inv] <;> field_simp

theorem sideways_scale {k : ℝ} (forward : 0 < k) (level : Level v) (rise : ℝ) :
    sideways ⟨k * v.x, rise, k * v.z⟩ = sideways v := by
  rw [sideways, heading_scale forward level, ← sideways]

theorem Level.scale {k : ℝ} (forward : 0 < k) (level : Level v) (rise : ℝ) : Level ⟨k * v.x, rise, k * v.z⟩ := by
  intro upright
  refine level ⟨?_, ?_⟩
  · exact (mul_eq_zero_iff_left forward.ne').mp upright.1
  · exact (mul_eq_zero_iff_left forward.ne').mp upright.2

theorem checked_iff_level : wind.checked = .ok v ↔ wind.direction = v.toList ∧ Level v := by
  rw [checked_eq_ok]
  refine and_congr_right fun three => ?_
  have same (x : ℝ) : (x == 0) = true ↔ x = 0 := decide_eq_true_iff
  constructor
  · rintro ⟨-, x, y, z, direction, level⟩
    rw [three] at direction
    cases direction
    rwa [same, same] at level
  · intro level
    refine ⟨fun _ _ => rfl, v.x, v.y, v.z, three, ?_⟩
    rwa [same, same]

end Wind

namespace VertexSway

variable {s : VertexSway ℝ} {v : Vec3 ℝ} {wind : Wind ℝ} {time : ℝ}

noncomputable def swing (s : VertexSway ℝ) (wind : Wind ℝ) (radius height : ℝ) : ℝ :=
  s.amplitude * wind.strength * s.give radius height

/-- The displacement of a vertex at one moment. Nothing is divided by zero on the way. -/
structure Circles (s : VertexSway ℝ) (time : ℝ) (wind : Wind ℝ) (v : Vec3 ℝ) (radius height : ℝ) (row : Vec3 ℝ) :
    Prop where
  undivided : radius + 1 ≠ 0
  level : row.y = 0
  round : s.circular = true → row.norm = |s.swing wind radius height|
  straight : s.circular = false →
    (∃ k, row = v.flat.scale k) ∧ row.norm = |Real.sin (s.phase time wind.noise) * s.swing wind radius height|

theorem shove_circular (circular : s.circular = true) (radius height : ℝ) :
    s.shove time wind (Wind.heading v) (Wind.sideways v) radius height =
      (Wind.heading v).scale (Real.sin (s.phase time wind.noise) * s.swing wind radius height) +
        (Wind.sideways v).scale (Real.cos (s.phase time wind.noise) * s.swing wind radius height) := by
  simp only [shove, push, if_pos circular, swing, ← mul_assoc]
  rfl

theorem shove_straight (straight : s.circular = false) (radius height : ℝ) :
    s.shove time wind (Wind.heading v) (Wind.sideways v) radius height =
      (Wind.heading v).scale (Real.sin (s.phase time wind.noise) * s.swing wind radius height) := by
  simp only [shove, push, straight, Bool.false_eq_true, if_false, swing, ← mul_assoc]
  rfl

theorem norm_around (level : Wind.Level v) (angle swing : ℝ) :
    ((Wind.heading v).scale (Real.sin angle * swing) + (Wind.sideways v).scale (Real.cos angle * swing)).norm =
      |swing| := by
  refine Vec3.norm_eq_of_dot (abs_nonneg swing) ?_
  rw [abs_mul_abs_self]
  have unit := Wind.heading_square level
  have turn := Real.sin_sq_add_cos_sq angle
  calc
    _ = (Real.sin angle ^ 2 + Real.cos angle ^ 2) * (swing * swing) *
        ((Wind.heading v).x * (Wind.heading v).x + (Wind.heading v).z * (Wind.heading v).z) := by
      simp only [Vec3.dot, Vec3.add_eq, Vec3.scale, Wind.sideways, Wind.heading_y]
      ring
    _ = swing * swing := by rw [turn, unit, one_mul, mul_one]

theorem circles_shove (level : Wind.Level v) {radius : ℝ} (apart : radius ≠ -1) (height : ℝ) :
    s.Circles time wind v radius height (s.shove time wind (Wind.heading v) (Wind.sideways v) radius height) where
  undivided := by
    intro zero
    exact apart (eq_neg_of_add_eq_zero_left zero)
  level := by
    cases circular : s.circular with
    | true =>
        rw [shove_circular circular]
        simp [Vec3.add_eq, Vec3.scale, Wind.heading_y, Wind.sideways]
    | false =>
        rw [shove_straight circular]
        simp [Vec3.scale, Wind.heading_y]
  round := by
    intro circular
    rw [shove_circular circular, norm_around level]
  straight := by
    intro straight
    rw [shove_straight straight]
    refine ⟨⟨Real.sin (s.phase time wind.noise) * s.swing wind radius height * v.flat.norm⁻¹, ?_⟩, ?_⟩
    · rw [Wind.heading_eq]
      ext <;> simp only [Vec3.scale] <;> ring
    · rw [Vec3.norm_scale, Wind.norm_heading level, mul_one]

/-- In exact arithmetic every wind that passes sways all vertices in the horizontal plane: in circles of a size that
neither time nor noise nor the direction of the wind changes, or to and fro along the wind. Only the horizontal
direction of the wind counts, not how far it points there and not what it has of up and down. -/
theorem sway_traces_circle (s : VertexSway ℝ) (radii heights : List ℝ) (same : radii.length = heights.length)
    (apart : ∀ radius ∈ radii, radius ≠ -1) (time : ℝ) (wind : Wind ℝ) (valid : wind.validate = .ok ()) :
    ∃ v rows, wind.direction = v.toList ∧ s.offsets radii heights time wind = .ok rows ∧
      rows.length = heights.length ∧
      (∀ (i : Nat) radius height row, radii[i]? = some radius → heights[i]? = some height → rows[i]? = some row →
        s.Circles time wind v radius height row) ∧
      ∀ k rise : ℝ, 0 < k →
        s.offsets radii heights time { wind with direction := [k * v.x, rise, k * v.z] } = .ok rows := by
  obtain ⟨v, checked⟩ := Wind.exists_checked (Wind.usable_iff.mp valid)
  obtain ⟨three, level⟩ := Wind.checked_iff_level.mp checked
  refine ⟨v, _, three, offsets_of_axes checked (Wind.axes_of_level level) same, ?_, ?_, ?_⟩
  · rw [List.length_zipWith, same, Nat.min_self]
  · intro i radius height row thick high found
    rw [List.getElem?_zipWith, thick, high] at found
    cases found
    exact circles_shove level (apart radius (List.mem_of_getElem? thick)) height
  · intro k rise forward
    have turned := level.scale forward rise
    have again : ({ wind with direction := [k * v.x, rise, k * v.z] } : Wind ℝ).checked =
        .ok ⟨k * v.x, rise, k * v.z⟩ := Wind.checked_iff_level.mpr ⟨rfl, turned⟩
    rw [offsets_of_axes again (Wind.axes_of_level turned) same, Wind.heading_scale forward level,
      Wind.sideways_scale forward level]
    rfl

theorem sway_traces_circle_gale :
    let s : VertexSway ℝ := { VertexSway.standard with radiusFalloff := true }
    let wind : Wind ℝ := ⟨[3, 1, 4], 2, some 1⟩
    ∃ rows, wind.validate = .ok () ∧ s.offsets [1, 3] [5, 7] 0 wind = .ok rows ∧ rows.length = 2 ∧
      (∀ row, rows[1]? = some row → row.y = 0 ∧ row.norm = |s.swing wind 3 7|) ∧
      s.offsets [1, 3] [5, 7] 0 { wind with direction := [2 * 3, 0, 2 * 4] } = .ok rows := by
  intro s wind
  have valid : wind.validate = .ok () := by
    have checked : wind.checked = .ok ⟨3, 1, 4⟩ :=
      Wind.checked_iff_level.mpr ⟨rfl, fun calm => three_ne_zero calm.1⟩
    exact Wind.usable_iff.mpr (Wind.checked_eq_ok.mp checked).2
  have apart : ∀ radius ∈ ([1, 3] : List ℝ), radius ≠ -1 := by
    simp only [List.mem_cons, List.not_mem_nil, or_false, forall_eq_or_imp, forall_eq]
    norm_num
  obtain ⟨v, rows, three, pushed, length, circles, again⟩ := sway_traces_circle s [1, 3] [5, 7] rfl apart 0 wind valid
  obtain rfl : v = ⟨3, 1, 4⟩ := by
    obtain ⟨x, y, z⟩ := v
    cases three
    rfl
  refine ⟨rows, valid, pushed, length, ?_, again 2 0 two_pos⟩
  intro row found
  have circle := circles 1 3 7 row rfl rfl found
  exact ⟨circle.level, circle.round rfl⟩

end VertexSway

end Arbor
