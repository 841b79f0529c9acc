import Mathlib
import Arbor.Proofs.Wind.Bounding

/-!
# How smooth gusts are

Gusts follow one polynomial in each cell. Where two cells meet, their polynomials have the same value, the same slope
and the same bend, so no jerk is felt there. A function that is put together of pieces is as smooth as the places where
they meet.
-/

namespace Arbor

open Filter Topology

noncomputable def pieced (piece : ℤ → ℝ → ℝ) (x : ℝ) : ℝ := piece ⌊x⌋ x

/-- Pieces that agree where their cells meet. -/
def Meet (piece : ℤ → ℝ → ℝ) : Prop := ∀ k : ℤ, piece (k - 1) k = piece k k

variable {piece rate : ℤ → ℝ → ℝ}

theorem Meet.ceil_eq_floor (meet : Meet piece) (x : ℝ) : piece (⌈x⌉ - 1) x = piece ⌊x⌋ x := by
  by_cases point : x ∈ Set.range Int.cast
  · obtain ⟨k, rfl⟩ := point
    rw [Int.ceil_intCast, Int.floor_intCast]
    exact meet k
  · rw [(Int.ceil_eq_floor_add_one_iff_notMem x).mpr point, add_sub_cancel_right]

theorem pieced_right (piece : ℤ → ℝ → ℝ) (x : ℝ) : pieced piece =ᶠ[𝓝[≥] x] piece ⌊x⌋ := by
  filter_upwards [tendsto_pure.mp (tendsto_floor_right_pure_floor x)] with y same
  rw [pieced, same]

theorem pieced_left (piece : ℤ → ℝ → ℝ) (x : ℝ) : pieced piece =ᶠ[𝓝[<] x] piece (⌈x⌉ - 1) := by
  filter_upwards [tendsto_pure.mp (tendsto_floor_left_pure_ceil_sub_one x)] with y same
  rw [pieced, same]

theorem hasDerivAt_pieced (meet : Meet piece) (even : Meet rate) (each : ∀ k x, HasDerivAt (piece k) (rate k x) x)
    (x : ℝ) : HasDerivAt (pieced piece) (pieced rate x) x := by
  -- From `x` on there is one piece, and up to `x` there is one; at a lattice point they are not the same.
  have right : HasDerivWithinAt (pieced piece) (rate ⌊x⌋ x) (Set.Ici x) x :=
    (each ⌊x⌋ x).hasDerivWithinAt.congr_of_eventuallyEq (pieced_right piece x) rfl
  have left : HasDerivWithinAt (pieced piece) (rate ⌊x⌋ x) (Set.Iio x) x := by
    rw [← even.ceil_eq_floor]
    exact (each _ x).hasDerivWithinAt.congr_of_eventuallyEq (pieced_left piece x) (meet.ceil_eq_floor x).symm
  have both := left.union right
  rwa [Set.Iio_union_Ici, hasDerivWithinAt_univ] at both

theorem continuous_pieced (meet : Meet piece) (each : ∀ k, Continuous (piece k)) : Continuous (pieced piece) := by
  rw [continuous_iff_continuousAt]
  intro x
  have right : ContinuousWithinAt (pieced piece) (Set.Ici x) x :=
    (each ⌊x⌋).continuousWithinAt.congr_of_eventuallyEq (pieced_right piece x) rfl
  have left : ContinuousWithinAt (pieced piece) (Set.Iio x) x :=
    (each _).continuousWithinAt.congr_of_eventuallyEq (pieced_left piece x) (meet.ceil_eq_floor x).symm
  have both := left.union right
  rwa [Set.Iio_union_Ici, continuousWithinAt_univ] at both

theorem contDiff_two {f rate bend : ℝ → ℝ} (first : ∀ x, HasDerivAt f (rate x) x)
    (second : ∀ x, HasDerivAt rate (bend x) x) (steady : Continuous bend) : ContDiff ℝ 2 f := by
  have turns : deriv f = rate := funext fun x => (first x).deriv
  have bends : deriv rate = bend := funext fun x => (second x).deriv
  have once : ContDiff ℝ 1 rate :=
    contDiff_one_iff_deriv.mpr ⟨fun x => (second x).differentiableAt, bends ▸ steady⟩
  rw [← one_add_one_eq_two, contDiff_succ_iff_deriv, turns]
  exact ⟨fun x => (first x).differentiableAt, by simp, once⟩

namespace Gusts

noncomputable def fadeRate (t : ℝ) : ℝ := 30 * t ^ 2 * (t - 1) ^ 2

noncomputable def fadeBend (t : ℝ) : ℝ := 60 * t * (t - 1) * (t - 1 + t)

noncomputable def blendRate (left right t : ℝ) : ℝ :=
  Scalar.ofInt 2 * (left + (right - left) * fade t + ((right - left) * t - right) * fadeRate t)

noncomputable def blendBend (left right t : ℝ) : ℝ :=
  Scalar.ofInt 2 * (Scalar.ofInt 2 * (right - left) * fadeRate t + ((right - left) * t - right) * fadeBend t)

theorem hasDerivAt_fade (t : ℝ) : HasDerivAt fade (fadeRate t) t := by
  have sum := (((hasDerivAt_pow 5 t).const_mul 6).sub ((hasDerivAt_pow 4 t).const_mul 15)).add
    ((hasDerivAt_pow 3 t).const_mul 10)
  refine (sum.congr_deriv ?_).congr_of_eventuallyEq (Eventually.of_forall fade_eq)
  rw [fadeRate]
  push_cast
  ring

theorem hasDerivAt_fadeRate (t : ℝ) : HasDerivAt fadeRate (fadeBend t) t := by
  have shifted := ((hasDerivAt_id t).sub_const 1).pow 2
  refine (((hasDerivAt_pow 2 t).const_mul 30).mul shifted).congr_deriv ?_
  simp only [fadeBend, Pi.pow_apply, id_eq]
  push_cast
  ring

theorem hasDerivAt_line (left right t : ℝ) : HasDerivAt (fun t => (right - left) * t - right) (right - left) t := by
  have line := ((hasDerivAt_id t).const_mul (right - left)).sub_const right
  exact line.congr_deriv (mul_one _)

theorem hasDerivAt_blend (left right t : ℝ) : HasDerivAt (blend left right) (blendRate left right t) t := by
  have line := hasDerivAt_line left right t
  have sum := (((hasDerivAt_id t).const_mul left).add (line.mul (hasDerivAt_fade t))).const_mul 2
  refine (sum.congr_deriv ?_).congr_of_eventuallyEq (Eventually.of_forall fun s => ?_)
  · rw [blendRate, ofInt_two]
    ring
  · rw [blend_eq]
    simp only [Pi.add_apply, Pi.mul_apply, id_eq]
    ring

theorem hasDerivAt_blendRate (left right t : ℝ) :
    HasDerivAt (blendRate left right) (blendBend left right t) t := by
  have line := hasDerivAt_line left right t
  have sum := ((((hasDerivAt_fade t).const_mul (right - left)).const_add left).add
    (line.mul (hasDerivAt_fadeRate t))).const_mul 2
  refine (sum.congr_deriv ?_).congr_of_eventuallyEq (Eventually.of_forall fun s => ?_)
  · rw [blendBend, ofInt_two]
    ring
  · rw [blendRate, ofInt_two]
    rfl

theorem continuous_blendBend (left right : ℝ) : Continuous (blendBend left right) := by
  unfold blendBend fadeRate fadeBend
  fun_prop

/-- A smooth function that goes through zero at a place, with this slope and without a bend. -/
structure Crosses (f : ℝ → ℝ) (x slope : ℝ) : Prop where
  smooth : ContDiff ℝ 2 f
  zero : f x = 0
  slope : deriv f x = slope
  straight : deriv (deriv f) x = 0

theorem crosses_blend {left right x slope : ℝ} (zero : blend left right x = 0)
    (turn : blendRate left right x = slope) (straight : blendBend left right x = 0) :
    Crosses (blend left right) x slope := by
  have rate : deriv (blend left right) = blendRate left right := funext fun t => (hasDerivAt_blend left right t).deriv
  refine ⟨contDiff_two (hasDerivAt_blend left right) (hasDerivAt_blendRate left right)
    (continuous_blendBend left right), zero, ?_, ?_⟩
  · rw [rate, turn]
  · rw [rate, (hasDerivAt_blendRate left right x).deriv, straight]

theorem blend_start (left right : ℝ) : Crosses (blend left right) 0 (2 * left) := by
  refine crosses_blend (blend_zero left right) ?_ ?_ <;>
    simp only [blendRate, blendBend, fadeRate, fadeBend, fade_eq, ofInt_two] <;> ring

theorem blend_stop (left right : ℝ) : Crosses (blend left right) 1 (2 * right) := by
  refine crosses_blend ?_ ?_ ?_ <;>
    simp only [blend_eq, blendRate, blendBend, fadeRate, fadeBend, fade_eq, ofInt_two] <;> ring

theorem meet_shift {f : ℝ → ℝ → ℝ → ℝ} (same : ∀ before slope after, f before slope 1 = f slope after 0)
    (slope : ℤ → ℝ) : Meet fun k x => f (slope k) (slope (k + 1)) (x - k) := by
  intro k
  have whole : (k : ℝ) - (k - 1 : ℤ) = 1 := by
    push_cast
    ring
  simp only [sub_add_cancel, whole, sub_self]
  exact same _ _ _

/-- Slopes at all lattice points blended in all cells. -/
theorem contDiff_blends (slope : ℤ → ℝ) :
    ContDiff ℝ 2 (pieced fun k x => blend (slope k) (slope (k + 1)) (x - k)) := by
  have moved {f rate : ℝ → ℝ → ℝ → ℝ} (each : ∀ left right t, HasDerivAt (f left right) (rate left right t) t)
      (k : ℤ) (x : ℝ) : HasDerivAt (fun x => f (slope k) (slope (k + 1)) (x - k))
        (rate (slope k) (slope (k + 1)) (x - k)) x :=
    (each _ _ _).comp_sub_const x k
  have values := meet_shift (f := blend) (fun before slope after => by
    rw [(blend_stop before slope).zero, (blend_start slope after).zero]) slope
  have rates := meet_shift (f := blendRate) (fun before slope after => by
    simp only [blendRate, fadeRate, fade_eq]
    ring) slope
  have bends := meet_shift (f := blendBend) (fun before slope after => by
    simp only [blendBend, fadeRate, fadeBend]
    ring) slope
  refine contDiff_two (hasDerivAt_pieced values rates (moved hasDerivAt_blend))
    (hasDerivAt_pieced rates bends (moved hasDerivAt_blendRate)) (continuous_pieced bends fun k => ?_)
  exact (continuous_blendBend _ _).comp (continuous_id.sub continuous_const)

theorem exists_slopes {g : Gusts ℝ} (full : g.Full) :
    ∃ slope : ℤ → ℝ, ∀ k, g.gradients[(k % g.period).toNat]? = some (slope k) := by
  refine ⟨fun k => g.gradients.getD (k % g.period).toNat 0, fun k => ?_⟩
  obtain ⟨low, high⟩ := cell_index full k
  have inside : (k % g.period).toNat < g.gradients.size := by omega
  simp [inside]

/-- Gusts follow in each cell the polynomial of its two slopes. Two polynomials go through zero where their cells meet,
with twice the slope there and without a bend, so gusts are twice continuously differentiable in time. -/
theorem sample_smooth {g : Gusts ℝ} (full : g.Full) :
    ∃ slope : ℤ → ℝ, (∀ k, g.gradients[(k % g.period).toNat]? = some (slope k)) ∧
      (∀ k, Crosses (blend (slope (k - 1)) (slope k)) 1 (2 * slope k) ∧
        Crosses (blend (slope k) (slope (k + 1))) 0 (2 * slope k)) ∧
      ∃ noise : ℝ → ℝ, (∀ time, g.sample time = .ok (noise time)) ∧ ContDiff ℝ 2 noise ∧
        ∀ k time, ⌊time * g.scale⌋ = k → noise time = blend (slope k) (slope (k + 1)) (time * g.scale - k) := by
  obtain ⟨slope, given⟩ := exists_slopes full
  refine ⟨slope, given, fun k => ⟨blend_stop _ _, blend_start _ _⟩, ?_⟩
  have known (k : ℤ) : g.gradient k = .ok (slope k) := by rw [gradient, given]
  refine ⟨fun time => pieced (fun k x => blend (slope k) (slope (k + 1)) (x - k)) (time * g.scale),
    fun time => ?_, ?_, ?_⟩
  · rw [sample_eq, known, known]
    rfl
  · exact (contDiff_blends slope).comp (contDiff_id.mul contDiff_const)
  · rintro k time rfl
    rfl

theorem sample_smooth_turning :
    let g : Gusts ℝ := ⟨1 / 2, 2, #[1, -1]⟩
    g.Full ∧ Crosses (blend (-1) 1) 1 2 ∧ Crosses (blend 1 (-1)) 0 2 ∧
      ∃ noise : ℝ → ℝ, (∀ time, g.sample time = .ok (noise time)) ∧ ContDiff ℝ 2 noise := by
  intro g
  have full : g.Full := ⟨by decide, by decide⟩
  obtain ⟨slope, given, meets, noise, blown, smooth, -⟩ := sample_smooth full
  have first : slope 1 = -1 := by simpa [g] using (given 1).symm
  have second : slope 2 = 1 := by simpa [g] using (given 2).symm
  have third : slope 3 = -1 := by simpa [g] using (given 3).symm
  obtain ⟨before, after⟩ := meets 2
  norm_num [first, second, third] at before after
  exact ⟨full, before, after, noise, blown, smooth⟩

end Gusts

end Arbor
