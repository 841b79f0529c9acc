import Arbor.Proofs.Grammar.Expansion
import Mathlib.Data.Finite.Sum
import Mathlib.Data.Matrix.Mul

/-!
# Counting

How often each symbol comes in a generation can be told without growing it: a generation turns the numbers of the
symbols by a matrix that the productions fix, so any number of generations turns them by a power of that matrix. The
matrix may be taken over all code points, or over a few of them that the grammar does not leave.
-/

namespace Arbor

namespace CodePoint

theorem finite_char : Finite Char := by
  have below (c : Char) : c.toNat < 0x110000 := by
    have valid := c.valid
    rcases valid with low | ⟨-, high⟩
    · exact Nat.lt_trans low (by decide)
    · exact high
  refine Finite.of_injective (fun c => (⟨c.toNat, below c⟩ : Fin 0x110000)) ?_
  intro c d same
  exact Char.toNat_inj.mp (Fin.mk.inj same)

/-- There are only so many code points. This is no instance everywhere, since what is decided about a word is decided
along the word and not over all code points. -/
@[reducible]
noncomputable def fintype : Fintype CodePoint :=
  have : Finite Char := finite_char
  have : Function.Surjective (Sum.elim scalar surrogate) := by
    intro p
    cases p with
    | scalar c => exact ⟨.inl c, rfl⟩
    | surrogate place => exact ⟨.inr place, rfl⟩
  have := Finite.of_surjective _ this
  Fintype.ofFinite CodePoint

end CodePoint

namespace Grammar

variable {ι : Type} {g : Grammar} {letter : ι → CodePoint}

def tally (letter : ι → CodePoint) (word : Text) : ι → ℕ := fun i => word.count (letter i)

/-- How often each letter comes in what takes the place of each letter. -/
def yields (g : Grammar) (letter : ι → CodePoint) : Matrix ι ι ℕ := fun i => tally letter (g.replacement (letter i))

/-- A word that is written in letters of an alphabet. -/
def Spelled (letter : ι → CodePoint) (word : Text) : Prop := ∀ p ∈ word, ∃ i, letter i = p

def Keeps (g : Grammar) (letter : ι → CodePoint) : Prop := ∀ i, Spelled letter (g.replacement (letter i))

theorem spelled_get {alphabet word : Text} (inside : word ⊆ alphabet) : Spelled alphabet.get word :=
  fun _ member => List.mem_iff_get.mp (inside member)

theorem spelled_rewrite (keeps : g.Keeps letter) {word : Text} (spelled : Spelled letter word) :
    Spelled letter (g.rewrite word) := by
  intro p member
  obtain ⟨q, read, inside⟩ := List.mem_flatMap.mp member
  obtain ⟨i, rfl⟩ := spelled q read
  exact keeps i p inside

theorem spelled_expand (keeps : g.Keeps letter) {word : Text} (spelled : Spelled letter word) (n : Nat) :
    Spelled letter (g.expand word n) := by
  induction n generalizing word with
  | zero => exact spelled
  | succ n ih => exact ih (spelled_rewrite keeps spelled)

variable [Fintype ι] [DecidableEq ι]

theorem sum_letters (single : Function.Injective letter) {word : Text} (spelled : Spelled letter word)
    (size : CodePoint → ℕ) : (word.map size).sum = ∑ i, tally letter word i * size (letter i) := by
  induction word with
  | nil => simp [tally]
  | cons p word ih =>
      obtain ⟨k, rfl⟩ := spelled p List.mem_cons_self
      have rest := ih fun q member => spelled q (List.mem_cons_of_mem _ member)
      rw [List.map_cons, List.sum_cons, rest]
      simp only [tally, List.count_cons, beq_iff_eq, single.eq_iff, add_mul, ite_mul, one_mul, zero_mul,
        Finset.sum_add_distrib, Finset.sum_ite_eq, Finset.mem_univ, if_true]
      exact Nat.add_comm _ _

theorem tally_rewrite (single : Function.Injective letter) {word : Text} (spelled : Spelled letter word) :
    tally letter (g.rewrite word) = Matrix.vecMul (tally letter word) (g.yields letter) := by
  funext j
  calc
    (g.rewrite word).count (letter j) = (word.map fun p => (g.replacement p).count (letter j)).sum :=
      List.count_flatMap
    _ = ∑ i, tally letter word i * (g.replacement (letter i)).count (letter j) := sum_letters single spelled _

/-- Generation `n` has as many letters as the `n`-th power of the matrix says. -/
theorem tally_expand (single : Function.Injective letter) (keeps : g.Keeps letter) {word : Text}
    (spelled : Spelled letter word) (n : Nat) :
    tally letter (g.expand word n) = Matrix.vecMul (tally letter word) (g.yields letter ^ n) := by
  induction n generalizing word with
  | zero => rw [expand, pow_zero, Matrix.vecMul_one]
  | succ n ih =>
      rw [expand, ih (spelled_rewrite keeps spelled), tally_rewrite single spelled, Matrix.vecMul_vecMul, ← pow_succ']

attribute [local instance] CodePoint.fintype

/-- How often a symbol comes after `n` generations, by the matrix over all code points. -/
noncomputable def forecast (g : Grammar) (initiator : Text) (n : Nat) (c : CodePoint) : ℕ :=
  ∑ a, initiator.count a * (g.yields id ^ n) a c

theorem count_expand (g : Grammar) (initiator : Text) (n : Nat) (c : CodePoint) :
    (g.expand initiator n).count c = g.forecast initiator n c :=
  congrFun (tally_expand Function.injective_id (fun _ p _ => ⟨p, rfl⟩) (fun p _ => ⟨p, rfl⟩) n) c

theorem length_spelled (single : Function.Injective letter) {word : Text} (spelled : Spelled letter word) :
    word.length = ∑ i, tally letter word i := by
  have ones := sum_letters single spelled fun _ => 1
  simpa using ones

theorem length_expand (g : Grammar) (initiator : Text) (n : Nat) :
    (g.expand initiator n).length = ∑ c, g.forecast initiator n c := by
  rw [length_spelled Function.injective_id fun p _ => ⟨p, rfl⟩]
  exact Finset.sum_congr rfl fun c _ => g.count_expand initiator n c

theorem forecast_letter (single : Function.Injective letter) (keeps : g.Keeps letter) {word : Text}
    (spelled : Spelled letter word) (n : Nat) (j : ι) :
    g.forecast word n (letter j) = Matrix.vecMul (tally letter word) (g.yields letter ^ n) j := by
  rw [← count_expand, ← tally_expand single keeps spelled]
  rfl

theorem sum_forecast (single : Function.Injective letter) (keeps : g.Keeps letter) {word : Text}
    (spelled : Spelled letter word) (n : Nat) :
    ∑ c, g.forecast word n c = ∑ j, Matrix.vecMul (tally letter word) (g.yields letter ^ n) j := by
  rw [← length_expand, length_spelled single (spelled_expand keeps spelled n), tally_expand single keeps spelled]

end Grammar

end Arbor
