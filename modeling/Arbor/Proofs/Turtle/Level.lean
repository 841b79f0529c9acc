import Mathlib.Data.Finset.Lattice.Fold
import Mathlib.Data.Finset.Range
import Mathlib.Order.Lattice.Nat
import Arbor.Turtle.Walk

/-!
# Levels

How deep in brackets every place of a word lies. A bracket that closes nothing does not lead below the
ground, so from there on all places lie one level higher than the brackets before them say.
-/

namespace Arbor

namespace Text

def excess (word : Text) (i : Nat) : Int :=
  (word.take i).count (.scalar ']') - (word.take i).count (.scalar '[')

def unmatched (word : Text) (i : Nat) : Nat := (Finset.range (i + 1)).sup fun j => (word.excess j).toNat

/-- How many brackets are open at a place. -/
def level (word : Text) (i : Nat) : Int := word.unmatched i - word.excess i

/-- No part of a word from its start on closes more brackets than it opens. -/
def Grounded (word : Text) : Prop :=
  ∀ i ≤ word.length, (word.take i).count (.scalar ']') ≤ (word.take i).count (.scalar '[')

/-- Every bracket of a word is closed again, and none is closed that is not open. -/
def Balanced (word : Text) : Prop :=
  word.Grounded ∧ word.count (.scalar ']') = word.count (.scalar '[')

instance (word : Text) : Decidable word.Grounded := Nat.decidableBallLE _ _

instance (word : Text) : Decidable word.Balanced := inferInstanceAs (Decidable (_ ∧ _))

/-- A word that can follow so many open brackets: at no place has it closed more than these and its own. -/
def Follows (word : Text) (room : Nat) : Prop :=
  ∀ i ≤ word.length, (word.take i).count (.scalar ']') ≤ (word.take i).count (.scalar '[') + room

theorem follows_cons {p : CodePoint} {word : Text} {room : Nat} (follows : Follows (p :: word) room) :
    (p = .scalar ']' → 0 < room) ∧
      ∀ next, next + (if p = .scalar ']' then 1 else 0) = room + (if p = .scalar '[' then 1 else 0) →
        word.Follows next := by
  have first := follows 1 (by simp)
  refine ⟨?_, fun next length i within => ?_⟩
  · rintro rfl
    simp at first
    omega
  · have bound := follows (i + 1) (by simpa using within)
    simp only [List.take_succ_cons, List.count_cons, beq_iff_eq] at bound
    omega

theorem Follows.append {first second : Text} {room next : Nat} (follows : first.Follows room)
    (left : next + first.count (.scalar ']') = room + first.count (.scalar '[')) (rest : second.Follows next) :
    Follows (first ++ second) room := by
  intro i within
  rcases Nat.le_total i first.length with inside | beyond
  · rw [List.take_append_of_le_length inside]
    exact follows i inside
  · rw [List.length_append] at within
    have bound := rest (i - first.length) (by omega)
    rw [List.take_append, List.take_of_length_le beyond, List.count_append, List.count_append]
    omega

theorem Follows.mono {word : Text} {room wider : Nat} (follows : word.Follows room) (more : room ≤ wider) :
    word.Follows wider := by
  intro i within
  have bound := follows i within
  omega

theorem count_take_succ {word : Text} {i : Nat} {p : CodePoint} (read : word[i]? = some p)
    (q : CodePoint) : (word.take (i + 1)).count q = (word.take i).count q + if p = q then 1 else 0 := by
  rw [List.take_add_one, read, List.count_append]
  simp [List.count_singleton]

theorem excess_succ {word : Text} {i : Nat} {p : CodePoint} (read : word[i]? = some p) :
    word.excess (i + 1) =
      word.excess i + (if p = .scalar ']' then 1 else 0) - (if p = .scalar '[' then 1 else 0) := by
  simp only [excess, count_take_succ read]
  split <;> split <;> omega

theorem unmatched_succ (word : Text) (i : Nat) :
    word.unmatched (i + 1) = max (word.unmatched i) (word.excess (i + 1)).toNat := by
  rw [unmatched, Finset.range_add_one, Finset.sup_insert, max_comm]
  rfl

theorem excess_le_unmatched (word : Text) (i : Nat) : word.excess i ≤ word.unmatched i := by
  have bound : (word.excess i).toNat ≤ word.unmatched i :=
    Finset.le_sup (f := fun j => (word.excess j).toNat) (Finset.self_mem_range_succ i)
  omega

/-- On a grounded word every bracket closes another one, so a place lies as high as the brackets before it say. -/
theorem level_of_grounded {word : Text} (grounded : word.Grounded) {i : Nat} (within : i ≤ word.length) :
    word.unmatched i = 0 ∧
      word.level i + (word.take i).count (.scalar ']') = (word.take i).count (.scalar '[') := by
  have unmatched : word.unmatched i = 0 := by
    apply Nat.eq_zero_of_le_zero
    refine Finset.sup_le fun j counted => ?_
    have bound := grounded j (by rw [Finset.mem_range] at counted; omega)
    simp only [excess]
    omega
  refine ⟨unmatched, ?_⟩
  rw [level, unmatched, excess]
  omega

theorem level_open {word : Text} {i : Nat} (read : word[i]? = some (.scalar '[')) :
    word.level (i + 1) = word.level i + 1 ∧ word.unmatched (i + 1) = word.unmatched i := by
  have bound := word.excess_le_unmatched i
  have next : word.excess (i + 1) = word.excess i + 0 - 1 := excess_succ read
  have same := word.unmatched_succ i
  simp only [level]
  omega

theorem level_close {word : Text} {i : Nat} (read : word[i]? = some (.scalar ']')) (deep : 0 < word.level i) :
    word.level (i + 1) = word.level i - 1 ∧ word.unmatched (i + 1) = word.unmatched i := by
  have next : word.excess (i + 1) = word.excess i + 1 - 0 := excess_succ read
  have same := word.unmatched_succ i
  simp only [level] at deep ⊢
  omega

theorem level_close_ground {word : Text} {i : Nat} (read : word[i]? = some (.scalar ']'))
    (ground : word.level i = 0) :
    word.level (i + 1) = 0 ∧ word.unmatched (i + 1) = word.unmatched i + 1 := by
  have next : word.excess (i + 1) = word.excess i + 1 - 0 := excess_succ read
  have same := word.unmatched_succ i
  simp only [level] at ground ⊢
  omega

theorem level_other {word : Text} {i : Nat} {p : CodePoint} (read : word[i]? = some p)
    (notOpen : p ≠ .scalar '[') (notClose : p ≠ .scalar ']') :
    word.level (i + 1) = word.level i ∧ word.unmatched (i + 1) = word.unmatched i := by
  have bound := word.excess_le_unmatched i
  have next := excess_succ read
  rw [if_neg notOpen, if_neg notClose] at next
  have same := word.unmatched_succ i
  simp only [level]
  omega

end Text

end Arbor
