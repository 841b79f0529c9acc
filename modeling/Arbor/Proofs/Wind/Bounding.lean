import Arbor.Proofs.Space.Exact
import Arbor.Proofs.Wind.Gusting

namespace Arbor.Gusts

theorem fade_eq (t : ℝ) : fade t = 6 * t ^ 5 - 15 * t ^ 4 + 10 * t ^ 3 := by
  simp only [fade, Scalar.ofInt]
  push_cast
  ring

theorem blend_eq (left right t : ℝ) :
    blend left right t = 2 * (left * t * (1 - fade t) + right * (t - 1) * fade t) := by
  simp only [blend, lerp, ofInt_two]
  ring

theorem fade_nonneg {t : ℝ} (inside : 0 ≤ t) : 0 ≤ fade t := by
  have square := sq_nonneg (t - 5 / 4)
  have factor : fade t = t ^ 3 * (6 * (t - 5 / 4) ^ 2 + 5 / 8) := by
    rw [fade_eq]
    ring
  rw [factor]
  positivity

theorem fade_reflect (t : ℝ) : fade (1 - t) = 1 - fade t := by
  simp only [fade_eq]
  ring

theorem fade_le_one {t : ℝ} (inside : t ≤ 1) : fade t ≤ 1 := by
  have other := fade_nonneg (sub_nonneg.mpr inside)
  rw [fade_reflect] at other
  linarith

theorem fade_same_half (t : ℝ) : 0 ≤ (1 - 2 * t) * (1 - 2 * fade t) := by
  have factor : (1 - 2 * t) * (1 - 2 * fade t) =
      (1 - 2 * t) ^ 2 * (6 * ((t - 1 / 2) ^ 2 - 5 / 12) ^ 2 + 5 / 6) := by
    rw [fade_eq]
    ring
  rw [factor]
  positivity

theorem abs_blend_le {left right t : ℝ} (before : |left| ≤ 1) (after : |right| ≤ 1) (low : 0 ≤ t) (high : t ≤ 1) :
    |blend left right t| ≤ 1 := by
  have down := fade_nonneg low
  have up := fade_le_one high
  have half := fade_same_half t
  have first : |left * t * (1 - fade t)| ≤ t * (1 - fade t) := by
    rw [abs_mul, abs_mul, abs_of_nonneg low, abs_of_nonneg (sub_nonneg.mpr up)]
    exact mul_le_mul_of_nonneg_right (mul_le_of_le_one_left low before) (sub_nonneg.mpr up)
  have second : |right * (t - 1) * fade t| ≤ (1 - t) * fade t := by
    rw [abs_mul, abs_mul, abs_sub_comm t 1, abs_of_nonneg (sub_nonneg.mpr high), abs_of_nonneg down]
    exact mul_le_mul_of_nonneg_right (mul_le_of_le_one_left (sub_nonneg.mpr high) after) down
  calc
    |blend left right t| = 2 * |left * t * (1 - fade t) + right * (t - 1) * fade t| := by
      rw [blend_eq, abs_mul, abs_two]
    _ ≤ 2 * (t * (1 - fade t) + (1 - t) * fade t) := by
      linarith [abs_add_le (left * t * (1 - fade t)) (right * (t - 1) * fade t)]
    _ ≤ 1 := by linarith

theorem blend_zero (left right : ℝ) : blend left right 0 = 0 := by
  rw [blend_eq, fade_eq]
  ring

variable {g : Gusts ℝ}

theorem cell_index (full : g.Full) (i : Int) : 0 ≤ i % g.period ∧ i % g.period < g.gradients.size :=
  ⟨Int.emod_nonneg i full.1.ne', lt_of_lt_of_le (Int.emod_lt_of_pos i full.1) full.2⟩

theorem gradient_mem {i : Int} {slope : ℝ} (given : g.gradient i = .ok slope) : slope ∈ g.gradients := by
  rw [gradient] at given
  split at given
  next found => cases given; exact Array.mem_of_getElem? found
  next => cases given

theorem gradient_add_period (g : Gusts ℝ) (i : Int) : g.gradient (i + g.period) = g.gradient i := by
  rw [gradient, gradient, Int.add_emod_right]

/-- On the cell that a time is in, gusts blend the slopes at its two ends. -/
theorem sample_eq (g : Gusts ℝ) (time : ℝ) :
    g.sample time = (do
      let left ← g.gradient ⌊time * g.scale⌋
      let right ← g.gradient (⌊time * g.scale⌋ + 1)
      return blend left right (Int.fract (time * g.scale))) := rfl

/-- Gusts whose slopes are at most one look up slopes that are there, blow with at most strength one, are still at every
lattice point and come again after a period, before time zero too. -/
theorem sample_within (full : g.Full) (moderate : ∀ slope ∈ g.gradients, |slope| ≤ 1) (time : ℝ) :
    (∀ i ∈ [⌊time * g.scale⌋, ⌊time * g.scale⌋ + 1], 0 ≤ i % g.period ∧ i % g.period < g.gradients.size) ∧
      ∃ x, g.sample time = .ok x ∧ |x| ≤ 1 ∧ ((∃ k : ℤ, time * g.scale = k) → x = 0) ∧
        (g.scale ≠ 0 → g.sample (time + g.period / g.scale) = .ok x) := by
  obtain ⟨left, first⟩ := exists_gradient full ⌊time * g.scale⌋
  obtain ⟨right, second⟩ := exists_gradient full (⌊time * g.scale⌋ + 1)
  have value : g.sample time = .ok (blend left right (Int.fract (time * g.scale))) := by
    rw [sample_eq, first, Outcome.ok_bind, second]
    rfl
  refine ⟨fun i _ => cell_index full i, _, value, ?_, ?_, fun turning => ?_⟩
  · exact abs_blend_le (moderate left (gradient_mem first)) (moderate right (gradient_mem second))
      (Int.fract_nonneg _) (Int.fract_lt_one _).le
  · rintro ⟨k, point⟩
    rw [point, Int.fract_intCast, blend_zero]
  · have later : (time + g.period / g.scale) * g.scale = time * g.scale + g.period := by
      rw [add_mul, div_mul_cancel₀ _ turning]
    rw [← value, sample_eq, sample_eq, later, Int.floor_add_intCast, Int.fract_add_intCast, gradient_add_period,
      add_right_comm, gradient_add_period]

theorem sample_within_turning :
    let g : Gusts ℝ := ⟨1 / 2, 2, #[1, -1]⟩
    g.Full ∧ (∀ slope ∈ g.gradients, |slope| ≤ 1) ∧ g.sample (-1) = .ok (-1) ∧
      g.sample (-1 + 2 / (1 / 2)) = .ok (-1) := by
  intro g
  have full : g.Full := ⟨by decide, by decide⟩
  have moderate : ∀ slope ∈ g.gradients, |slope| ≤ 1 := by simp [g]
  obtain ⟨-, x, value, -, -, again⟩ := sample_within full moderate (-1)
  have cell : ⌊(-1 : ℝ) * g.scale⌋ = -1 := by
    rw [Int.floor_eq_iff]
    norm_num [g]
  have least : g.sample (-1) = .ok (-1) := by
    have offset : Int.fract ((-1 : ℝ) * g.scale) = 1 / 2 := by
      rw [Int.fract, cell]
      norm_num [g]
    have left : g.gradient (-1) = .ok (-1) := rfl
    have right : g.gradient (-1 + 1) = .ok 1 := rfl
    rw [sample_eq, cell, offset, left, right]
    refine congrArg Except.ok ?_
    rw [blend_eq, fade_eq]
    norm_num
  refine ⟨full, moderate, least, ?_⟩
  rw [← least, value]
  exact again (by norm_num [g])

theorem fraction_within (a b : UInt32) : 0 ≤ fraction (α := ℝ) a b ∧ fraction (α := ℝ) a b ≤ 1 := by
  have high : (a >>> 5).toNat < 2 ^ 27 := by
    rw [UInt32.toNat_shiftRight, Nat.shiftRight_eq_div_pow]
    exact Nat.div_lt_of_lt_mul a.toNat_lt
  have low : (b >>> 6).toNat < 2 ^ 26 := by
    rw [UInt32.toNat_shiftRight, Nat.shiftRight_eq_div_pow]
    exact Nat.div_lt_of_lt_mul b.toNat_lt
  have most : (a >>> 5).toNat * 2 ^ 26 + (b >>> 6).toNat ≤ 2 ^ 53 := by omega
  have bound : (a >>> 5).toNat * (2 : ℝ) ^ 26 + (b >>> 6).toNat ≤ 2 ^ 53 := by exact_mod_cast most
  have value : fraction a b = ((a >>> 5).toNat * (2 : ℝ) ^ 26 + (b >>> 6).toNat) / 2 ^ 53 := by
    have shift : ((67108864 : Int) : ℝ) = 2 ^ 26 := by norm_num
    have limit : ((Int.pow 2 53 : Int) : ℝ) = 2 ^ 53 := by norm_num [show Int.pow 2 53 = 2 ^ 53 from rfl]
    simp only [fraction, Scalar.ofInt, Int.cast_natCast, shift, limit]
  rw [value]
  exact ⟨by positivity, div_le_one_of_le₀ bound (by positivity)⟩

theorem moderate_of_words {scale : ℝ} {period : Int} {words : Nat → Array UInt32} {g : Gusts ℝ}
    (made : ofWords scale period words = .ok g) : ∀ slope ∈ g.gradients, |slope| ≤ 1 := by
  obtain ⟨count, -, same⟩ := Outcome.bind_eq_ok made
  cases same
  intro slope member
  obtain ⟨i, rfl⟩ := Array.mem_ofFn.mp member
  obtain ⟨low, high⟩ := fraction_within _ _
  rw [ofInt_two, abs_le]
  exact ⟨by linarith, by linarith⟩

end Arbor.Gusts
