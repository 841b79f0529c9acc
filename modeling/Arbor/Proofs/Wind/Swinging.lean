import Arbor.Proofs.Space.Exact
import Arbor.Proofs.Wind.Checking
import Arbor.Wind.BoneSway

namespace Arbor.BoneSway

variable {s : BoneSway ℝ} {time phase : ℝ} {wind : Wind ℝ} {v : Vec3 ℝ} {i : Nat} {radius : ℝ}

noncomputable def push (s : BoneSway ℝ) (wind : Wind ℝ) : ℝ := wind.strength * s.strengthScale * s.flexibility

/-- How far a bone of a radius turns at most, for each unit of the direction of the wind. -/
noncomputable def bend (s : BoneSway ℝ) (wind : Wind ℝ) (radius : ℝ) : ℝ := s.push wind / (radius + 1)

noncomputable def swing (s : BoneSway ℝ) (time phase : ℝ) (i : Nat) : ℝ := time + phase + i * s.phaseStep

/-- The turn of a bone with a radius at one moment. Nothing is divided by zero on the way. -/
structure Swings (s : BoneSway ℝ) (time phase : ℝ) (wind : Wind ℝ) (v : Vec3 ℝ) (i : Nat) (radius : ℝ)
    (row : Vec3 ℝ) : Prop where
  undivided : radius + 1 ≠ 0
  forth : row.x = v.x * s.bend wind radius * Real.sin (s.swing time phase i)
  level : row.y = 0
  sideways : row.z = v.z * s.bend wind radius * Real.cos (s.swing time phase i)
  round : (v.z * row.x) ^ 2 + (v.x * row.z) ^ 2 = (v.x * v.z * s.bend wind radius) ^ 2
  forth_le : |row.x| ≤ |v.x * s.bend wind radius|
  sideways_le : |row.z| ≤ |v.z * s.bend wind radius|
  damped : s.push wind ≠ 0 → |s.bend wind radius| < |s.push wind|

theorem angles_eq (s : BoneSway ℝ) (time phase : ℝ) (wind : Wind ℝ) (v : Vec3 ℝ) (i : Nat) (radius : ℝ) :
    s.angles v (wind.strength * s.strengthScale) (time + phase) i radius =
      ⟨v.x * s.bend wind radius * Real.sin (s.swing time phase i), 0,
        v.z * s.bend wind radius * Real.cos (s.swing time phase i)⟩ := by
  have later : time + phase + Scalar.ofInt (i : Int) * s.phaseStep = s.swing time phase i := by
    rw [swing, ← Int.cast_natCast]
    rfl
  have share (along : ℝ) :
      along * (wind.strength * s.strengthScale) * s.influence radius = along * s.bend wind radius := by
    rw [bend, push, influence]
    ring
  simp only [angles, share, later]
  rfl

theorem abs_bend_le {thin thick : ℝ} (positive : 0 < thin) (thicker : thin ≤ thick) :
    |s.bend wind thick| ≤ |s.bend wind thin| := by
  rw [bend, bend, abs_div, abs_div, abs_of_pos (by linarith : 0 < thin + 1), abs_of_pos (by linarith : 0 < thick + 1)]
  gcongr

theorem abs_bend_lt (thick : 0 < radius) (pushed : s.push wind ≠ 0) : |s.bend wind radius| < |s.push wind| := by
  rw [bend, abs_div, abs_of_pos (by linarith : 0 < radius + 1)]
  exact div_lt_self (abs_pos.mpr pushed) (by linarith)

theorem swings_angles (thick : 0 < radius) : s.Swings time phase wind v i radius
    (s.angles v (wind.strength * s.strengthScale) (time + phase) i radius) := by
  rw [angles_eq]
  refine ⟨by linarith, rfl, rfl, rfl, ?_, ?_, ?_, abs_bend_lt thick⟩
  · have turn := Real.sin_sq_add_cos_sq (s.swing time phase i)
    linear_combination (v.x * v.z * s.bend wind radius) ^ 2 * turn
  · rw [abs_mul]
    exact mul_le_of_le_one_right (abs_nonneg _) (Real.abs_sin_le_one _)
  · rw [abs_mul]
    exact mul_le_of_le_one_right (abs_nonneg _) (Real.abs_cos_le_one _)

section

variable {α : Type} [Scalar α] {s : BoneSway α} {radii : List α} {time phase : α} {wind : Wind α} {v : Vec3 α}

theorem turns_of_checked (checked : wind.checked = .ok v) : s.turns radii time wind phase =
    .ok (radii.mapIdx fun i radius =>
      if i = 0 then 0 else s.angles v (wind.strength * s.strengthScale) (time + phase) i radius) := by
  rw [turns, checked]
  rfl

theorem turns_eq_ok {rows : List (Vec3 α)} (turned : s.turns radii time wind phase = .ok rows) :
    ∃ direction, rows = radii.mapIdx fun i radius =>
      if i = 0 then 0 else s.angles direction (wind.strength * s.strengthScale) (time + phase) i radius := by
  obtain ⟨direction, checked, -⟩ := Outcome.bind_eq_ok turned
  rw [turns_of_checked checked] at turned
  cases turned
  exact ⟨direction, rfl⟩

end

theorem swings_of_turns {radii : List ℝ} (checked : wind.checked = .ok v) {rows : List (Vec3 ℝ)}
    (turned : s.turns radii time wind phase = .ok rows) (found : radii[i]? = some radius) (above : 1 ≤ i)
    (thick : 0 < radius) : ∃ row, rows[i]? = some row ∧ s.Swings time phase wind v i radius row := by
  rw [turns_of_checked checked] at turned
  cases turned
  refine ⟨_, ?_, swings_angles thick⟩
  rw [List.getElem?_mapIdx, found, Option.map_some, if_neg (Nat.ne_of_gt above)]

/-- A phase is a later time. -/
theorem turns_later (s : BoneSway ℝ) (radii : List ℝ) (time : ℝ) (wind : Wind ℝ) (phase : ℝ) :
    s.turns radii (time + phase) wind 0 = s.turns radii time wind phase := by
  rw [turns, turns, add_zero]

end Arbor.BoneSway
