import Arbor.Proofs.Tree.Building
import Mathlib.Data.List.Induction

/-!
# Generations

A growth that is drawn from gives the builder the tree of one generation after another, each in place of the one before.
What is drawn is what a build of that generation from scratch would be, and drawing nothing does nothing.
-/

namespace Arbor

namespace Session

variable {α : Type}

/-- A session after one of its builders has been given trees one after another: only the last of them is left, and of
what was there before nothing is gone but the tree that the builder held. -/
structure Succession (s : Session α) (k : Nat) (given : List (Asset α)) (next : Session α) : Prop where
  size : next.assets.size = s.assets.size + given.length
  holds : next.held k = if given = [] then s.held k else some (s.assets.size + (given.length - 1))
  placed : ∀ j a, given[j]? = some a →
    next.assets[s.assets.size + j]? = some (if j + 1 = given.length then a else a.dispose)
  before : ∀ (i : Nat) (a : Asset α), s.assets[i]? = some a →
    next.assets[i]? = some (if given ≠ [] ∧ s.held k = some i then a.dispose else a)
  others : ∀ c, c ≠ k → next.held c = s.held c

theorem succession_nil (s : Session α) (k : Nat) : Succession s k [] s where
  size := rfl
  holds := rfl
  placed := by
    intro j a found
    cases found
  before := by
    intro i a found
    rw [if_neg (fun both => both.1 rfl)]
    exact found
  others := fun _ _ => rfl

theorem Succession.install {s next : Session α} {k : Nat} {given : List (Asset α)} (earlier : Succession s k given next)
    (inside : k < next.current.size) (a : Asset α) : Succession s k (given ++ [a]) (next.install k a) := by
  have one : (given ++ [a]).length = given.length + 1 := List.length_append
  have more : given ++ [a] ≠ [] := List.append_ne_nil_of_right_ne_nil _ (List.cons_ne_nil _ _)
  have size := earlier.size
  have holds := earlier.holds
  refine ⟨?_, ?_, ?_, ?_, ?_⟩
  · rw [size_install, one]
    omega
  · rw [held_install _ inside, if_pos rfl, if_neg more, one, size, Nat.add_sub_cancel]
  · intro j b found
    rw [getElem?_install, one]
    rcases Nat.lt_or_ge j given.length with old | new
    · have filled : given ≠ [] := List.ne_nil_of_length_pos (by omega)
      rw [List.getElem?_append_left old] at found
      rw [if_neg (by omega), getElem?_clear, holds, if_neg filled, earlier.placed j b found,
        if_neg (show ¬ j + 1 = given.length + 1 by omega)]
      by_cases last : j + 1 = given.length
      · have top : some (s.assets.size + (given.length - 1)) = some (s.assets.size + j) := congrArg some (by omega)
        rw [if_pos top, if_pos last, Option.map_some]
      · have below : ¬ some (s.assets.size + (given.length - 1)) = some (s.assets.size + j) := by
          rw [Option.some.injEq]
          omega
        rw [if_neg below, if_neg last]
    · have place := (List.getElem?_eq_some_iff.mp found).1
      have last : j = given.length := by omega
      subst last
      rw [List.getElem?_concat_length] at found
      rw [if_pos (by omega), if_pos rfl, found]
  · intro i b found
    have old := (Array.getElem?_eq_some_iff.mp found).1
    rw [getElem?_install, if_neg (by omega), getElem?_clear, holds, earlier.before i b found]
    by_cases empty : given = []
    · subst empty
      by_cases held : s.held k = some i
      · simp [held]
      · simp [held]
    · have other : ¬ some (s.assets.size + (given.length - 1)) = some i := by
        rw [Option.some.injEq]
        omega
      rw [if_neg empty, if_neg other]
      simp only [more, empty, ne_eq, not_false_eq_true, true_and]
  · intro c other
    rw [held_install _ inside, if_neg other, earlier.others c other]

theorem succession_installAll {s : Session α} {k : Nat} (inside : k < s.current.size) (given : List (Asset α)) :
    Succession s k given (s.installAll k given) ∧ (s.installAll k given).current.size = s.current.size := by
  induction given using List.reverseRecOn with
  | nil => exact ⟨succession_nil s k, rfl⟩
  | append_singleton given a ih =>
      have last : s.installAll k (given ++ [a]) = (s.installAll k given).install k a := by
        simp only [installAll, List.foldl_append, List.foldl_cons, List.foldl_nil]
      rw [last]
      exact ⟨ih.1.install (by rw [ih.2]; exact inside) a, (size_current_install _ k a).trans ih.2⟩

variable [Scalar α]

/-- Any builder of any session answers an operation with one tree. -/
def Answers (operation : Int → Operation α) (a : Asset α) : Prop :=
  ∀ (t : Session α) (c : Int) (k : Nat), t.builder c = .ok k →
    (t.perform (operation c)).2 = .ok (.built t.assets.size a)

theorem answers_build {p : TreeParams α} {word : Text} {a : Asset α} (built : Asset.build p word = .ok a) :
    Answers (fun c => .build c p word) a := by
  intro t c k found
  simp only [perform, atBuilder, found, keep, built]

theorem answers_buildGrammar {p : TreeParams α} {g : Grammar} {initiator : Text} {n : Int} {a : Asset α}
    (built : Asset.buildGrammar p g initiator n = .ok a) : Answers (fun c => .buildGrammar c p g initiator n) a := by
  intro t c k found
  simp only [perform, atBuilder, found, keep, built]

theorem drawnWords_succ (p : TreeParams α) (g : Grammar) (initiator : Text) (n : Int) (count : Nat) :
    drawnWords p g initiator n (some (count + 1)) =
      p.validate.bind fun _ => g.draw initiator n (some (count + 1)) := rfl

theorem drawnWords_of_valid {p : TreeParams α} (valid : p.validate = .ok ()) (g : Grammar) (initiator : Text)
    (n count : Nat) : drawnWords p g initiator n (some count) = .ok ((g.history initiator n).take count) := by
  cases count with
  | zero => rfl
  | succ count =>
      rw [drawnWords_succ, valid]
      exact g.draw_natCast initiator n (count + 1)

theorem drawnWords_of_neg {p : TreeParams α} (valid : p.validate = .ok ()) (g : Grammar) (initiator : Text) {n : Int}
    (negative : n < 0) (count : Nat) :
    drawnWords p g initiator n (some (count + 1)) = .error (.negativeIterations n) := by
  rw [drawnWords_succ, valid]
  exact g.draw_of_neg initiator negative count

theorem drawnWords_refused {p : TreeParams α} {n : Int} (unfit : p.validate ≠ .ok () ∨ n < 0) (g : Grammar)
    (initiator : Text) (count : Nat) :
    ∃ fault, fault.BlamesParameter [p.radialSegments, p.leafSegments, n] ∧
      drawnWords p g initiator n (some (count + 1)) = .error fault := by
  cases checked : p.validate with
  | error fault =>
      refine ⟨fault, (TreeParams.blamesParameter_of_validate checked).mono (by simp), ?_⟩
      rw [drawnWords_succ, checked]
      rfl
  | ok _ =>
      have negative : n < 0 := unfit.resolve_left fun refused => refused checked
      exact ⟨.negativeIterations n, (Fault.blamesParameter_negativeIterations n).mono (by simp),
        drawnWords_of_neg checked g initiator negative count⟩

theorem getElem?_drawn {g : Grammar} {initiator : Text} {n count j : Nat} (few : count ≤ n + 1) {word : Text}
    (read : ((g.history initiator n).take count)[j]? = some word) : j < count ∧ word = g.expand initiator j := by
  rw [List.getElem?_take] at read
  split at read
  · rename_i inside
    rw [g.getElem?_history initiator (by omega), Option.some.injEq] at read
    exact ⟨inside, read.symm⟩
  · cases read

/-- A growth draws the tree of each generation as a build of that generation gives it, and puts it in place of the one
before. It stops early only at a generation that cannot be built, and then as its build does. Parameters and counts that
cannot be used are refused as parameters, unless one of the numbers has too many digits to be named. -/
theorem growing_draws_builds (apart : Scalar.PositiveApart α) {s : Session α} {b : Int} {k : Nat}
    (found : s.builder b = .ok k) (p : TreeParams α) (g : Grammar) (initiator : Text) (n : Int) :
    s.perform (.grow b p g initiator n (some 0)) = (s, .ok (.grown [])) ∧
      (p.validate ≠ .ok () ∨ n < 0 → ∀ count, ∃ fault,
        fault.BlamesParameter [p.radialSegments, p.leafSegments, n] ∧
        s.perform (.grow b p g initiator n (some (count + 1))) = (s, .error fault)) ∧
      (p.validate = .ok () → 0 ≤ n → ∀ count : Nat, count ≤ n + 1 →
        ∃ drawn next answer, s.perform (.grow b p g initiator n (some count)) = (next, answer) ∧
          Succession s k (drawn.map Prod.snd) next ∧
          drawn.map Prod.fst = List.range' s.assets.size drawn.length ∧
          (∀ (j i : Nat) a, drawn[j]? = some (i, a) → a.isDisposed = false ∧
            ∃ word, g.generate (α := α) initiator j = .ok word ∧ Answers (fun c => .build c p word) a ∧
              (j = n → Answers (fun c => .buildGrammar c p g initiator n) a)) ∧
          ((drawn.length = count ∧ answer = .ok (.grown drawn)) ∨
            drawn.length < count ∧ ∃ word fault, g.generate (α := α) initiator drawn.length = .ok word ∧
              ¬ p.Fits word ∧ Asset.build p word = .error fault ∧ answer = .error fault)) := by
  refine ⟨?_, ?_, ?_⟩
  · have untouched : drawnWords p g initiator n (some 0) = .ok [] := rfl
    exact perform_grow found untouched
  · intro unfit count
    obtain ⟨fault, blames, refused⟩ := drawnWords_refused unfit g initiator count
    exact ⟨fault, blames, perform_grow_error found refused⟩
  · intro valid positive count few
    obtain ⟨m, rfl⟩ := Int.eq_ofNat_of_zero_le positive
    have short : count ≤ m + 1 := by omega
    have chosen := drawnWords_of_valid valid g initiator m count
    obtain ⟨drawn, numbers, each, kept, ends⟩ := s.keepAll_eq k p ((g.history initiator m).take count)
    have inside : k < s.current.size := place?_lt (builder_eq_ok found)
    refine ⟨drawn, _, _, perform_grow found chosen, ?_, numbers, ?_, ?_⟩
    · rw [kept]
      exact (succession_installAll inside _).1
    · intro j i a drew
      obtain ⟨word, read, built⟩ := Outcome.related_of_getElem? each drew
      rw [List.take_take] at read
      obtain ⟨-, rfl⟩ := getElem?_drawn (Nat.le_trans (Nat.min_le_right _ _) short) read
      refine ⟨(Asset.whole_build built).1, _, g.generate_natCast initiator j, answers_build built, fun last => ?_⟩
      obtain rfl : j = m := by omega
      rw [← Asset.buildGrammar_natCast valid] at built
      exact answers_buildGrammar built
    · rcases ends with ⟨whole, answer⟩ | ⟨word, fault, read, failed, answer⟩
      · rw [List.length_take, g.length_history, Nat.min_eq_left short] at whole
        rw [answer]
        exact .inl ⟨whole, rfl⟩
      · obtain ⟨early, rfl⟩ := getElem?_drawn short read
        rw [answer]
        refine .inr ⟨early, _, fault, g.generate_natCast initiator _, fun fits => ?_, failed, rfl⟩
        obtain ⟨a, built⟩ := Asset.exists_of_fits apart (TreeParams.usable_iff.mp valid) fits
        rw [failed] at built
        cases built

theorem growing_draws_builds_forking :
    ∃ drawn next, (start 1 BoneSway.standard : Session Float).perform
        (.grow 0 TreeParams.standard Grammar.forking ['A'] 2 (some 2)) = (next, .ok (.grown drawn)) ∧
      drawn.map Prod.fst = [0, 1] ∧ next.held 0 = some 1 := by
  have found : (start 1 BoneSway.standard : Session Float).builder 0 = .ok 0 := rfl
  have valid : (TreeParams.standard : TreeParams Float).validate = .ok () := rfl
  obtain ⟨-, -, grows⟩ := growing_draws_builds positiveApart_float found TreeParams.standard Grammar.forking ['A'] 2
  obtain ⟨drawn, next, answer, reached, succession, numbers, -, ends⟩ := grows valid (by decide) 2 (by decide)
  rcases ends with ⟨whole, rfl⟩ | ⟨early, word, _, expanded, unfit, -⟩
  · have holds := succession.holds
    have filled : drawn.map Prod.snd ≠ [] := List.ne_nil_of_length_pos (by rw [List.length_map, whole]; decide)
    rw [List.length_map, whole, if_neg filled] at holds
    rw [whole] at numbers
    exact ⟨drawn, next, reached, numbers, holds⟩
  · rw [Grammar.generate_natCast, Except.ok.injEq] at expanded
    subst expanded
    exact absurd ⟨fun _ => by decide, fun _ => by decide, fun skinned => nomatch skinned⟩ unfit

/-- A first draw of a number of generations below zero that has too many digits is not refused as a parameter. -/
theorem overlong_growth_unnamed :
    ∃ fault, (start 1 BoneSway.standard : Session Float).perform
        (.grow 0 TreeParams.standard Grammar.forking ['A'] Decimal.overlong (some 1)) =
          (start 1 BoneSway.standard, .error fault) ∧ fault.kind ≠ .parameter := by
  have found : (start 1 BoneSway.standard : Session Float).builder 0 = .ok 0 := rfl
  have valid : (TreeParams.standard : TreeParams Float).validate = .ok () := rfl
  have refused := drawnWords_of_neg valid Grammar.forking ['A'] Decimal.overlong_neg 0
  refine ⟨_, perform_grow_error found refused, ?_⟩
  rw [Grammar.kind_negativeIterations, Decimal.isWritable_overlong]
  decide

end Session

end Arbor
