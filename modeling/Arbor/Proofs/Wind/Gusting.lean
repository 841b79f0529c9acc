import Mathlib.Algebra.Group.Int.Defs
import Arbor.Proofs.Outcome
import Arbor.Wind.Gust

namespace Arbor.Gusts

open Outcome

variable {α : Type} [Scalar α]

omit [Scalar α] in
def Full (g : Gusts α) : Prop := 0 < g.period ∧ g.period ≤ g.gradients.size

omit [Scalar α] in
theorem exists_gradient {g : Gusts α} (full : g.Full) (i : Int) : ∃ slope, g.gradient i = .ok slope := by
  obtain ⟨positive, within⟩ := full
  have least := Int.emod_nonneg i (Int.ne_of_gt positive)
  have most := Int.emod_lt_of_pos i positive
  have inside : (i % g.period).toNat < g.gradients.size := by omega
  rw [gradient, Array.getElem?_eq_getElem inside]
  exact ⟨_, rfl⟩

theorem exists_sample {g : Gusts α} (full : g.Full) (time : α) : ∃ x, g.sample time = .ok x := by
  rw [sample]
  obtain ⟨left, first⟩ := exists_gradient full (Scalar.cell (time * g.scale))
  obtain ⟨right, second⟩ := exists_gradient full (Scalar.cell (time * g.scale) + 1)
  rw [first, ok_bind, second]
  exact ⟨_, rfl⟩

theorem full_of_words {scale : α} {period : Int} {words : Nat → Array UInt32} {g : Gusts α} (positive : 0 < period)
    (made : ofWords scale period words = .ok g) : g.Full := by
  obtain ⟨count, counted, same⟩ := bind_eq_ok made
  cases same
  have length := eq_of_lengthOf counted
  refine ⟨positive, ?_⟩
  simp only [size_slopes]
  omega

theorem words_of_seed {scale : α} {period seed : Int} {g : Gusts α} (made : ofSeed scale period seed = .ok g) :
    ofWords scale period (Twister.words (UInt32.ofNat seed.toNat)) = .ok g := by
  rw [ofSeed] at made
  split at made
  · cases made
  · exact made

theorem ofSeed_of_outside {scale : α} {period seed : Int} (outside : seed < 0 ∨ 2 ^ 32 ≤ seed) :
    ofSeed scale period seed = .error .seed := if_pos outside

theorem exists_ofWords (scale : α) {period : Int} {count : Nat} (counted : lengthOf (α := α) period = .ok count)
    (words : Nat → Array UInt32) : ∃ g, ofWords scale period words = .ok g := by
  rw [ofWords, counted]
  exact ⟨_, rfl⟩

theorem exists_ofSeed (scale : α) {period seed : Int} {count : Nat} (counted : lengthOf (α := α) period = .ok count)
    (inside : 0 ≤ seed ∧ seed < 2 ^ 32) : ∃ g, ofSeed scale period seed = .ok g := by
  have within : ¬ (seed < 0 ∨ Int.pow 2 32 ≤ seed) := by
    have limit : Int.pow 2 32 = 2 ^ 32 := rfl
    omega
  rw [ofSeed, if_neg within]
  exact exists_ofWords scale counted _

end Arbor.Gusts
