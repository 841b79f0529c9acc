import Arbor.Grammar
import Arbor.Proofs.Outcome
import Arbor.Proofs.Wording

namespace Arbor

namespace Grammar

variable {α : Type}

theorem replacement_ne_nil (g : Grammar) (symbol : CodePoint) : g.replacement symbol ≠ [] := by
  rw [replacement]
  split
  · exact List.cons_ne_nil _ _
  · exact List.cons_ne_nil _ _

@[simp] theorem rewrite_cons (g : Grammar) (symbol : CodePoint) (word : Text) :
    g.rewrite (symbol :: word) = g.replacement symbol ++ g.rewrite word := rfl

theorem length_le_rewrite (g : Grammar) (word : Text) : word.length ≤ (g.rewrite word).length := by
  induction word with
  | nil => exact Nat.le_refl 0
  | cons symbol word ih =>
      have filled := List.length_pos_of_ne_nil (g.replacement_ne_nil symbol)
      rw [rewrite_cons, List.length_append, List.length_cons]
      omega

theorem length_le_expand (g : Grammar) (word : Text) (n : Nat) : word.length ≤ (g.expand word n).length := by
  induction n generalizing word with
  | zero => exact Nat.le_refl _
  | succ n ih => exact Nat.le_trans (g.length_le_rewrite word) (ih (g.rewrite word))

theorem expand_add (g : Grammar) (word : Text) (m n : Nat) : g.expand word (m + n) = g.expand (g.expand word m) n := by
  induction m generalizing word with
  | zero => rw [Nat.zero_add, expand]
  | succ m ih => rw [Nat.succ_add, expand, expand, ih]

theorem length_expand_mono (g : Grammar) (word : Text) {m n : Nat} (later : m ≤ n) :
    (g.expand word m).length ≤ (g.expand word n).length := by
  obtain ⟨more, rfl⟩ := Nat.exists_eq_add_of_le later
  rw [expand_add]
  exact g.length_le_expand _ more

theorem getElem?_history (g : Grammar) (word : Text) {k n : Nat} (within : k ≤ n) :
    (g.history word n)[k]? = some (g.expand word k) := by
  induction k generalizing word n with
  | zero => cases n <;> rfl
  | succ k ih =>
      cases n with
      | zero => exact absurd within (Nat.not_succ_le_zero k)
      | succ n =>
          rw [history, List.getElem?_cons_succ, expand]
          exact ih (g.rewrite word) (Nat.le_of_succ_le_succ within)

theorem generations_natCast (n : Nat) : generations (α := α) n = .ok n := by
  rw [generations, if_neg (by omega), Int.toNat_natCast]

theorem generations_of_neg {n : Int} (negative : n < 0) : generations (α := α) n = .error (.negativeIterations n) :=
  if_pos negative

theorem generate_natCast (g : Grammar) (word : Text) (n : Nat) :
    g.generate (α := α) word n = .ok (g.expand word n) := by
  rw [generate, generations_natCast]
  rfl

theorem iterate_natCast (g : Grammar) (word : Text) (n : Nat) : g.iterate (α := α) word n = .ok (g.history word n) := by
  rw [iterate, generations_natCast]
  rfl

theorem draw_natCast (g : Grammar) (word : Text) (n taken : Nat) :
    g.draw (α := α) word n (some taken) = .ok ((g.history word n).take taken) := by
  cases taken with
  | zero => rfl
  | succ k =>
      rw [draw, generations_natCast, take_history]
      rfl

theorem draw_of_neg (g : Grammar) (word : Text) {n : Int} (negative : n < 0) (taken : Nat) :
    g.draw (α := α) word n (some (taken + 1)) = .error (.negativeIterations n) := by
  rw [draw, generations_of_neg negative]
  rfl

theorem kind_negativeIterations (n : Int) :
    (Fault.negativeIterations n : Fault α).kind = if Decimal.isWritable n then .parameter else .value := rfl

/-- One generation puts productions in place of symbols, words expand piece by piece, and generations add up. All
generations can be drawn in turn and nothing else can, no generation is shorter than an earlier one, and fewer than none
are refused as soon as one is asked for, as a parameter unless their number has too many digits to be named. -/
theorem generations_compose (g : Grammar) :
    (∀ symbol, g.generate (α := α) [symbol] 1 = .ok (g.replacement symbol)) ∧
      (∀ (a b : Text) (n : Nat), ∃ x y, g.generate (α := α) a n = .ok x ∧ g.generate (α := α) b n = .ok y ∧
        g.generate (α := α) (a ++ b) n = .ok (x ++ y)) ∧
      (∀ (a : Text) (m n : Nat), ∃ x y, g.generate (α := α) a m = .ok x ∧ g.generate (α := α) x n = .ok y ∧
        g.generate (α := α) a (m + n) = .ok y) ∧
      (∀ (a : Text) (n : Nat), ∃ words, g.iterate (α := α) a n = .ok words ∧ words.length = n + 1 ∧
        (∀ k ≤ n, ∃ x, words[k]? = some x ∧ g.generate (α := α) a k = .ok x) ∧
        ∀ taken, g.draw (α := α) a n (some taken) = .ok (words.take taken)) ∧
      (∀ (a : Text) (m n : Nat), m ≤ n → ∃ x y, g.generate (α := α) a m = .ok x ∧ g.generate (α := α) a n = .ok y ∧
        x.length ≤ y.length ∧ (a ≠ [] → y ≠ [])) ∧
      ∀ (a : Text) (n : Int), n < 0 → ∃ fault : Fault α, g.generate a n = .error fault ∧
        g.iterate a n = .error fault ∧ (∀ taken, g.draw a n (some (taken + 1)) = .error fault) ∧
        fault.kind = if Decimal.isWritable n then .parameter else .value := by
  refine ⟨?_, ?_, ?_, ?_, ?_, ?_⟩
  · intro symbol
    have alone : g.expand [symbol] 1 = g.replacement symbol := by
      rw [expand, expand, rewrite_cons, rewrite_nil, List.append_nil]
    rw [← alone]
    exact g.generate_natCast [symbol] 1
  · intro a b n
    refine ⟨_, _, g.generate_natCast a n, g.generate_natCast b n, ?_⟩
    rw [generate_natCast, expand_append]
  · intro a m n
    refine ⟨_, _, g.generate_natCast a m, g.generate_natCast _ n, ?_⟩
    rw [← Int.natCast_add, generate_natCast, expand_add]
  · intro a n
    refine ⟨_, g.iterate_natCast a n, g.length_history a n, ?_, g.draw_natCast a n⟩
    intro k within
    exact ⟨_, g.getElem?_history a within, g.generate_natCast a k⟩
  · intro a m n later
    refine ⟨_, _, g.generate_natCast a m, g.generate_natCast a n, g.length_expand_mono a later, ?_⟩
    intro filled
    have start := List.length_pos_of_ne_nil filled
    exact List.ne_nil_of_length_pos (Nat.lt_of_lt_of_le start (g.length_le_expand a n))
  · intro a n negative
    refine ⟨.negativeIterations n, ?_, ?_, g.draw_of_neg a negative, kind_negativeIterations n⟩
    · rw [generate, generations_of_neg negative, Outcome.error_bind]
    · rw [iterate, generations_of_neg negative, Outcome.error_bind]

def forking : Grammar := ⟨[('A', some ['f', '[', 'A', ']', 'A']), ('B', some []), ('C', none)]⟩

theorem generations_compose_forking :
    (∃ x y, forking.generate (α := Float) ['B', 'A', 'C'] (1 : Nat) = .ok x ∧
        forking.generate (α := Float) ['B', 'A', 'C'] (3 : Nat) = .ok y ∧ x.length ≤ y.length ∧ y ≠ []) ∧
      ∃ fault : Fault Float, forking.iterate ['A'] (-1) = .error fault ∧ fault.kind = .parameter := by
  obtain ⟨-, -, -, -, grows, refuses⟩ := generations_compose (α := Float) forking
  obtain ⟨x, y, first, third, longer, filled⟩ := grows ['B', 'A', 'C'] 1 3 (by decide)
  obtain ⟨fault, -, refused, -, kind⟩ := refuses ['A'] (-1) (by decide)
  rw [if_pos (Decimal.isWritable_of_lt_ten (by decide))] at kind
  exact ⟨⟨x, y, first, third, longer, filled (List.cons_ne_nil _ _)⟩, fault, refused, kind⟩

/-- A count below zero that has too many digits is not refused as a parameter. -/
theorem overlong_count_unnamed :
    Decimal.overlong < 0 ∧ ∃ fault : Fault Float,
      forking.generate ['A'] Decimal.overlong = .error fault ∧ forking.draw ['A'] Decimal.overlong (some 1) = .error fault ∧
        fault.kind ≠ .parameter := by
  refine ⟨Decimal.overlong_neg, .negativeIterations Decimal.overlong, ?_, draw_of_neg _ _ Decimal.overlong_neg 0, ?_⟩
  · rw [generate, generations_of_neg Decimal.overlong_neg, Outcome.error_bind]
  · rw [kind_negativeIterations, Decimal.isWritable_overlong]
    decide

end Grammar

end Arbor
