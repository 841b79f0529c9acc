import Arbor.Proofs.Grammar.Expansion
import Arbor.Proofs.Tree.Building
import Arbor.Proofs.Turtle.Branching

namespace Arbor

namespace Grammar

/-- No production opens a bracket without closing it or the other way round, and no bracket is replaced. -/
structure Balanced (g : Grammar) : Prop where
  productions : ∀ symbol word, Table.get? symbol g.rules = some (some word) → word ≠ [] → word.Balanced
  brackets : ∀ symbol ∈ ([.scalar '[', .scalar ']'] : Text), ∀ word,
    Table.get? symbol g.rules = some (some word) → word = []

theorem replacement_cases (g : Grammar) (symbol : CodePoint) :
    g.replacement symbol = [symbol] ∨
      g.replacement symbol ≠ [] ∧ Table.get? symbol g.rules = some (some (g.replacement symbol)) := by
  unfold replacement
  split
  · rename_i found
    exact .inr ⟨List.cons_ne_nil _ _, found⟩
  · exact .inl rfl

theorem replacement_of_balanced {g : Grammar} (balanced : g.Balanced) (symbol : CodePoint) :
    g.replacement symbol = [symbol] ∨
      (symbol ≠ .scalar '[' ∧ symbol ≠ .scalar ']') ∧ Text.Balanced (g.replacement symbol) := by
  rcases g.replacement_cases symbol with same | ⟨given, found⟩
  · exact .inl same
  · refine .inr ⟨⟨?_, ?_⟩, balanced.productions symbol _ found given⟩
    · rintro rfl
      exact given (balanced.brackets _ (by simp) _ found)
    · rintro rfl
      exact given (balanced.brackets _ (by simp) _ found)

theorem follows_replacement {g : Grammar} (balanced : g.Balanced) {symbol : CodePoint} {room : Nat}
    (opened : symbol = .scalar ']' → 0 < room) :
    ∃ next, next + (if symbol = .scalar ']' then 1 else 0) = room + (if symbol = .scalar '[' then 1 else 0) ∧
      (g.replacement symbol).Follows room ∧
        next + (g.replacement symbol).count (.scalar ']') = room + (g.replacement symbol).count (.scalar '[') := by
  rcases replacement_of_balanced balanced symbol with same | ⟨⟨noOpening, noClosing⟩, stands⟩
  · have enough : (if symbol = .scalar ']' then 1 else 0) ≤ room := by
      split
      · exact opened ‹_›
      · exact Nat.zero_le room
    rw [same]
    simp only [List.count_singleton, beq_iff_eq]
    have left := Nat.sub_add_cancel (Nat.le_add_right_of_le (k := if symbol = .scalar '[' then 1 else 0) enough)
    refine ⟨_, left, fun i _ => ?_, left⟩
    have few := (List.take_sublist i [symbol]).count_le (.scalar ']')
    simp only [List.count_singleton, beq_iff_eq] at few
    omega
  · have above : (g.replacement symbol).Follows 0 := stands.1
    rw [if_neg noOpening, if_neg noClosing, stands.2]
    exact ⟨room, rfl, above.mono (Nat.zero_le room), rfl⟩

theorem follows_rewrite {g : Grammar} (balanced : g.Balanced) {word : Text} {room : Nat} (follows : word.Follows room) :
    (g.rewrite word).Follows room ∧
      (g.rewrite word).count (.scalar ']') + word.count (.scalar '[') =
        (g.rewrite word).count (.scalar '[') + word.count (.scalar ']') := by
  induction word generalizing room with
  | nil => exact ⟨follows, rfl⟩
  | cons symbol word ih =>
      obtain ⟨opened, rest⟩ := Text.follows_cons follows
      obtain ⟨next, moved, first, counted⟩ := follows_replacement balanced opened
      obtain ⟨later, total⟩ := ih (rest next moved)
      rw [rewrite_cons]
      refine ⟨first.append counted later, ?_⟩
      simp only [List.count_append, List.count_cons, beq_iff_eq]
      omega

theorem balanced_rewrite {g : Grammar} (balanced : g.Balanced) {word : Text} (stands : word.Balanced) :
    Text.Balanced (g.rewrite word) := by
  have above : word.Follows 0 := stands.1
  obtain ⟨later, total⟩ := follows_rewrite balanced above
  have even := stands.2
  exact ⟨later, by omega⟩

theorem balanced_expand {g : Grammar} (balanced : g.Balanced) {word : Text} (stands : word.Balanced) (n : Nat) :
    Text.Balanced (g.expand word n) := by
  induction n generalizing word with
  | zero => exact stands
  | succ n ih => exact ih (balanced_rewrite balanced stands)

end Grammar

theorem Gait.walk_of_balanced {α : Type} [Scalar α] (g : Gait α) {word : Text} (stands : word.Balanced) :
    (g.walk word).turtle.stack = [] ∧ (g.walk word).turtle.underflows = 0 ∧
      ∀ s, .segment s ∈ g.events word → ∃ k, word[k]? = some (.scalar 'f') ∧
        s.index = (word.take k).count (.scalar 'f') ∧
          s.depth + (word.take k).count (.scalar ']') = (word.take k).count (.scalar '[') := by
  have last := g.branched_walk word (Nat.le_refl word.length)
  obtain ⟨unmatched, level⟩ := Text.level_of_grounded stands.1 (Nat.le_refl word.length)
  rw [List.take_length] at last level
  refine ⟨?_, last.underflows.trans unmatched, fun s member => ?_⟩
  · have depth := last.depth
    have even := stands.2
    exact List.eq_nil_of_length_eq_zero (by omega)
  · obtain ⟨k, read, rfl⟩ := g.exists_forward_of_mem_events member
    have within := Nat.le_of_lt (List.getElem?_eq_some_iff.mp read).1
    have kept := g.branched_walk word within
    have depth : ((g.walk (word.take k)).turtle.stack.length : Int) = word.level k := kept.depth
    have around := (Text.level_of_grounded stands.1 within).2
    refine ⟨k, read, kept.placed, ?_⟩
    change (g.walk (word.take k)).turtle.stack.length + _ = _
    omega

theorem Asset.underflows_of_build {α : Type} [Scalar α] {p : TreeParams α} {place : Vec3 α}
    (checked : p.checked = .ok place) {word : Text} {a : Asset α} (built : build p word = .ok a) :
    a.underflows = ((p.gait place).walk word).turtle.underflows := by
  rw [build, checked, Outcome.ok_bind] at built
  obtain ⟨buffers, -, same⟩ := Outcome.bind_eq_ok built
  cases same
  rfl

namespace Grammar

/-- A balanced grammar grows balanced words from a balanced one, so their trees have no bracket that closes nothing: the
turtle ends with nothing to remember, and the depth of a segment is the number of brackets open around it. -/
theorem balanced_never_underflows {α : Type} [Scalar α] (apart : Scalar.PositiveApart α) {g : Grammar}
    (balanced : g.Balanced) {initiator : Text} (stands : initiator.Balanced) (n : Nat) {p : TreeParams α}
    (valid : p.validate = .ok ()) :
    ∃ word place, g.generate (α := α) initiator n = .ok word ∧ p.checked = .ok place ∧ word.Balanced ∧
      (p.Fits word → ∃ a, Asset.buildGrammar p g initiator n = .ok a) ∧
      (∀ a, Asset.buildGrammar p g initiator n = .ok a → a.underflows = 0) ∧
      ((p.gait place).walk word).turtle.stack = [] ∧
      ∀ s, .segment s ∈ (p.gait place).events word → ∃ k, word[k]? = some (.scalar 'f') ∧
        s.index = (word.take k).count (.scalar 'f') ∧
          s.depth + (word.take k).count (.scalar ']') = (word.take k).count (.scalar '[') := by
  obtain ⟨place, checked⟩ := TreeParams.validate_eq_ok.mp valid
  have grown := balanced_expand balanced stands n
  obtain ⟨empty, unmatched, deep⟩ := (p.gait place).walk_of_balanced grown
  refine ⟨_, place, g.generate_natCast initiator n, checked, grown, ?_, ?_, empty, deep⟩
  · intro fits
    rw [Asset.buildGrammar_natCast valid]
    exact Asset.exists_of_fits apart (TreeParams.usable_iff.mp valid) fits
  · intro a built
    rw [Asset.buildGrammar_natCast valid] at built
    exact (Asset.underflows_of_build checked built).trans unmatched

theorem balanced_forking : forking.Balanced where
  productions := by
    intro symbol word found given
    simp only [forking, Table.get?] at found
    split at found
    · cases found
      decide
    · split at found
      · cases found
        exact absurd rfl given
      · split at found <;> cases found
  brackets := by
    intro symbol bracket word found
    rcases List.mem_pair.mp bracket with rfl | rfl <;> cases found

theorem balanced_never_underflows_forking :
    forking.Balanced ∧ Text.Balanced ['[', 'A', ']', 'B'] ∧
      ∃ a, Asset.buildGrammar (TreeParams.standard : TreeParams Float) forking ['[', 'A', ']', 'B'] (2 : Nat) = .ok a ∧
        a.underflows = 0 := by
  have stands : Text.Balanced ['[', 'A', ']', 'B'] := by decide
  obtain ⟨word, place, -, -, -, builds, even, -⟩ :=
    balanced_never_underflows positiveApart_float balanced_forking stands 2 (p := TreeParams.standard) (by rfl)
  obtain ⟨a, built⟩ := builds ⟨fun _ => by decide, fun _ => by decide, fun skinned => nomatch skinned⟩
  exact ⟨balanced_forking, stands, a, built, even a built⟩

end Grammar

end Arbor
