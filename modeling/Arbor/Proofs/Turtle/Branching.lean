import Arbor.Proofs.Turtle.Growth
import Arbor.Proofs.Turtle.Level

/-!
# Branching

The brackets of a word say which segment each segment and each leaf grows on: the last one before it from
which no way leads down again. Nothing of the turtle enters into it, and unmatched brackets are no exception.
-/

namespace Arbor

namespace Text

/-- A segment that is placed at `j` carries what is placed at `k`, unless a later one does: between them the
word never lies lower than at `j`. -/
def Reaches (word : Text) (j k : Nat) : Prop :=
  j < k ∧ word[j]? = some (.scalar 'f') ∧ ∀ i, j < i → i ≤ k → word.level j ≤ word.level i

/-- The number of the segment that is placed last among some places, and none where there is no such place. -/
def Last (word : Text) (places : Nat → Prop) : Option Nat → Prop
  | none => ∀ j, ¬ places j
  | some m => ∃ j, IsGreatest {j | places j} j ∧ m = (word.take j).count (.scalar 'f')

/-- The segment that carries what is placed at `k`. -/
def Carries (word : Text) (k : Nat) (segment : Option Nat) : Prop :=
  word.Last (fun j => word.Reaches j k) segment

/-- The segments that a pose may stand on which was saved `n` brackets ago. -/
def ReachesBelow (word : Text) (k n j : Nat) : Prop := word.Reaches j k ∧ word.level j + n ≤ word.level k

theorem last_congr (word : Text) {first second : Nat → Prop} (same : ∀ j, first j ↔ second j)
    {segment : Option Nat} (last : word.Last first segment) : word.Last second segment := by
  have equal : first = second := funext fun j => propext (same j)
  exact equal ▸ last

theorem reaches_level {word : Text} {j k : Nat} (reaches : word.Reaches j k) : word.level j ≤ word.level k :=
  reaches.2.2 k reaches.1 (Nat.le_refl k)

theorem reachesBelow_zero (word : Text) (k j : Nat) : word.ReachesBelow k 0 j ↔ word.Reaches j k := by
  constructor
  · intro below
    exact below.1
  · intro reaches
    exact ⟨reaches, by simpa using reaches_level reaches⟩

theorem reaches_succ (word : Text) (i j : Nat) :
    word.Reaches j (i + 1) ↔
      (j = i ∧ word[i]? = some (.scalar 'f') ∧ word.level i ≤ word.level (i + 1)) ∨
        (word.Reaches j i ∧ word.level j ≤ word.level (i + 1)) := by
  constructor
  · rintro ⟨before, read, above⟩
    have now := above (i + 1) before (Nat.le_refl _)
    rcases Nat.lt_succ_iff_lt_or_eq.mp before with earlier | rfl
    · right
      exact ⟨⟨earlier, read, fun m after within => above m after (by omega)⟩, now⟩
    · left
      exact ⟨rfl, read, now⟩
  · rintro (⟨rfl, read, now⟩ | ⟨⟨before, read, above⟩, now⟩)
    · refine ⟨Nat.lt_succ_self j, read, ?_⟩
      intro m after within
      have same : m = j + 1 := by omega
      exact same ▸ now
    · refine ⟨by omega, read, ?_⟩
      intro m after within
      rcases Nat.lt_or_ge i m with beyond | inside
      · have same : m = i + 1 := by omega
        exact same ▸ now
      · exact above m after inside

theorem reachesBelow_succ {word : Text} {i n m : Nat} (notSegment : word[i]? ≠ some (.scalar 'f'))
    (shift : word.level (i + 1) - n = word.level i - m ∨ (n = 0 ∧ m = 0 ∧ word.level i ≤ word.level (i + 1)))
    (j : Nat) : word.ReachesBelow i m j ↔ word.ReachesBelow (i + 1) n j := by
  simp only [ReachesBelow, reaches_succ]
  constructor
  · rintro ⟨reaches, below⟩
    have level := reaches_level reaches
    exact ⟨.inr ⟨reaches, by omega⟩, by omega⟩
  · rintro ⟨⟨-, read, -⟩ | ⟨reaches, now⟩, below⟩
    · exact absurd read notSegment
    · have level := reaches_level reaches
      exact ⟨reaches, by omega⟩

end Text

namespace Gait

variable {α : Type} [Scalar α]

/-- What a walk along the first `i` code points of a word keeps. The turtle's own pose counts as saved no
bracket ago. -/
structure Branched (word : Text) (i : Nat) (w : Walk α) : Prop where
  depth : (w.turtle.stack.length : Int) = word.level i
  underflows : w.turtle.underflows = word.unmatched i
  placed : w.placed = (word.take i).count (.scalar 'f')
  poses : ∀ n pose, (w.turtle.pose :: w.turtle.stack)[n]? = some pose →
    word.Last (word.ReachesBelow i n) pose.segment

theorem branched_start (g : Gait α) (word : Text) : Branched word 0 g.start where
  depth := rfl
  underflows := rfl
  placed := rfl
  poses := by
    intro n pose found
    have same : pose = g.start.turtle.pose := by
      rw [show g.start.turtle.stack = [] from rfl] at found
      exact List.mem_singleton.mp (List.mem_of_getElem? found)
    subst pose
    intro j below
    exact Nat.not_lt_zero j below.1.1

omit [Scalar α] in
theorem branched_still {word : Text} {i : Nat} {p : CodePoint} {w v : Walk α} (read : word[i]? = some p)
    (quiet : p ≠ .scalar 'f' ∧ p ≠ .scalar '[' ∧ p ≠ .scalar ']') (kept : Branched word i w)
    (stack : v.turtle.stack = w.turtle.stack) (underflows : v.turtle.underflows = w.turtle.underflows)
    (segment : v.turtle.pose.segment = w.turtle.pose.segment) (placed : v.placed = w.placed) :
    Branched word (i + 1) v := by
  have same := Text.level_other read quiet.2.1 quiet.2.2
  have notSegment : word[i]? ≠ some (.scalar 'f') := by
    rw [read]
    simpa using quiet.1
  refine ⟨?_, ?_, ?_, ?_⟩
  · rw [stack, kept.depth, same.1]
  · rw [underflows, kept.underflows, same.2]
  · rw [placed, kept.placed, Text.count_take_succ read, if_neg quiet.1, Nat.add_zero]
  · intro n pose found
    have below := Text.reachesBelow_succ (n := n) (m := n) notSegment (.inl (by omega))
    apply word.last_congr below
    cases n with
    | zero =>
        rw [List.getElem?_cons_zero, Option.some.injEq] at found
        subst pose
        rw [segment]
        exact kept.poses 0 _ rfl
    | succ n =>
        rw [List.getElem?_cons_succ, stack] at found
        exact kept.poses (n + 1) pose found

theorem branched_forward (g : Gait α) {word : Text} {i : Nat} {w : Walk α}
    (read : word[i]? = some (.scalar 'f')) (kept : Branched word i w) :
    Branched word (i + 1) (g.step w (.scalar 'f')) := by
  have same := Text.level_other read (by decide) (by decide)
  refine ⟨?_, ?_, ?_, ?_⟩
  · exact kept.depth.trans same.1.symm
  · exact kept.underflows.trans same.2.symm
  · rw [Text.count_take_succ read, if_pos rfl, ← kept.placed]
    rfl
  · intro n pose found
    cases n with
    | zero =>
        rw [List.getElem?_cons_zero, Option.some.injEq] at found
        subst pose
        refine ⟨i, ⟨?_, ?_⟩, kept.placed⟩
        · refine ⟨(word.reaches_succ i i).mpr (.inl ⟨rfl, read, by omega⟩), by omega⟩
        · intro j below
          exact Nat.le_of_lt_succ below.1.1
    | succ n =>
        -- The new segment lies above every pose that is saved, so it carries none of them.
        apply word.last_congr _ (kept.poses (n + 1) pose found)
        intro j
        simp only [Text.ReachesBelow, Text.reaches_succ]
        constructor
        · rintro ⟨reaches, below⟩
          exact ⟨.inr ⟨reaches, by omega⟩, by omega⟩
        · rintro ⟨⟨rfl, -, -⟩ | ⟨reaches, -⟩, below⟩
          · omega
          · exact ⟨reaches, by omega⟩

theorem branched_open (g : Gait α) {word : Text} {i : Nat} {w : Walk α}
    (read : word[i]? = some (.scalar '[')) (kept : Branched word i w) :
    Branched word (i + 1) (g.step w (.scalar '[')) := by
  have deeper := Text.level_open read
  have notSegment : word[i]? ≠ some (.scalar 'f') := by simp [read]
  refine ⟨?_, ?_, ?_, ?_⟩
  · have depth := kept.depth
    simp only [step_open, Turtle.push, List.length_cons]
    omega
  · exact kept.underflows.trans deeper.2.symm
  · rw [Text.count_take_succ read, ← kept.placed]
    rfl
  · intro n pose found
    cases n with
    | zero =>
        have below := Text.reachesBelow_succ (n := 0) (m := 0) notSegment (.inr ⟨rfl, rfl, by omega⟩)
        exact word.last_congr below (kept.poses 0 pose found)
    | succ n =>
        have below := Text.reachesBelow_succ (n := n + 1) (m := n) notSegment (.inl (by omega))
        exact word.last_congr below (kept.poses n pose found)

theorem branched_close (g : Gait α) {word : Text} {i : Nat} {w : Walk α}
    (read : word[i]? = some (.scalar ']')) (kept : Branched word i w) :
    Branched word (i + 1) (g.step w (.scalar ']')) := by
  have notSegment : word[i]? ≠ some (.scalar 'f') := by simp [read]
  have placed : w.placed = (word.take (i + 1)).count (.scalar 'f') := by
    rw [Text.count_take_succ read, kept.placed]
    rfl
  have depth := kept.depth
  rw [step_close]
  cases stack : w.turtle.stack with
  | nil =>
      -- A bracket that closes nothing lowers the ground, and the level stays where it was.
      rw [stack, List.length_nil] at depth
      have ground := Text.level_close_ground read depth.symm
      simp only [Turtle.pop, stack]
      refine ⟨ground.1.symm, ?_, placed, ?_⟩
      · rw [ground.2, kept.underflows]
      · intro n pose found
        have below := Text.reachesBelow_succ (n := n) (m := n) notSegment (.inl (by omega))
        exact word.last_congr below (kept.poses n pose (by rwa [stack]))
  | cons saved rest =>
      rw [stack, List.length_cons] at depth
      have higher := Text.level_close read (by omega)
      simp only [Turtle.pop, stack]
      refine ⟨?_, kept.underflows.trans higher.2.symm, placed, ?_⟩
      · change (rest.length : Int) = word.level (i + 1)
        omega
      · intro n pose found
        have below := Text.reachesBelow_succ (n := n) (m := n + 1) notSegment (.inl (by omega))
        exact word.last_congr below (kept.poses (n + 1) pose (by rwa [List.getElem?_cons_succ, stack]))

theorem branched_step (g : Gait α) {word : Text} {i : Nat} {p : CodePoint} {w : Walk α}
    (read : word[i]? = some p) (kept : Branched word i w) : Branched word (i + 1) (g.step w p) := by
  rcases p.quiet_or with rfl | rfl | rfl | rfl | quiet
  · exact g.branched_forward read kept
  · exact branched_still read (by decide) kept rfl rfl rfl rfl
  · exact g.branched_open read kept
  · exact g.branched_close read kept
  · obtain ⟨turned, passed, step⟩ := g.step_quiet quiet
    rw [step]
    exact branched_still read ⟨quiet.1, quiet.2.2⟩ kept rfl rfl rfl rfl

theorem branched_walk (g : Gait α) (word : Text) {i : Nat} (within : i ≤ word.length) :
    Branched word i (g.walk (word.take i)) := by
  induction i with
  | zero => exact g.branched_start word
  | succ i ih =>
      have read : word[i]? = some word[i] := List.getElem?_eq_getElem within
      rw [g.walk_take_succ read]
      exact g.branched_step read (ih (Nat.le_of_succ_le within))

/-- Where a turtle stands is said by the brackets: how many poses it remembers, how many brackets have closed
nothing, and which segment carries it. -/
theorem carries_walk (g : Gait α) {word : Text} {k : Nat} {p : CodePoint} (read : word[k]? = some p) :
    ((g.walk (word.take k)).turtle.stack.length : Int) = word.level k ∧
      word.Carries k (g.walk (word.take k)).turtle.pose.segment := by
  have within : k ≤ word.length := Nat.le_of_lt (List.getElem?_eq_some_iff.mp read).1
  have kept := g.branched_walk word within
  exact ⟨kept.depth, word.last_congr (word.reachesBelow_zero k) (kept.poses 0 _ rfl)⟩

/-- The brackets of a word determine the branching of its tree. -/
theorem branching_by_brackets (g : Gait α) (word : Text) :
    (∀ i ≤ word.length,
        ((g.walk (word.take i)).turtle.stack.length : Int) = word.level i ∧
          (g.walk (word.take i)).turtle.underflows = word.unmatched i) ∧
      (∀ k, word[k]? = some (.scalar 'f') →
        ∃ s, (g.events word)[(word.take k).count (.scalar 'f') + (word.take k).count (.scalar 'l')]? =
            some (.segment s) ∧
          (s.depth : Int) = word.level k ∧ word.Carries k s.parent) ∧
      ∀ k, word[k]? = some (.scalar 'l') →
        ∃ l, (g.events word)[(word.take k).count (.scalar 'f') + (word.take k).count (.scalar 'l')]? =
            some (.leaf l) ∧
          word.Carries k l.segment := by
  refine ⟨?_, ?_, ?_⟩
  · intro i within
    have kept := g.branched_walk word within
    exact ⟨kept.depth, kept.underflows⟩
  · intro k read
    have stands := g.carries_walk read
    exact ⟨_, g.event_at read rfl, stands.1, stands.2⟩
  · intro k read
    exact ⟨_, g.event_at read rfl, (g.carries_walk read).2⟩

theorem branching_by_brackets_stray :
    ((walk (standard : Gait Float) [']', 'f', '[']).turtle.stack.length : Int) = 1 ∧
      (∃ s, (events (standard : Gait Float) [']', 'f', '[', 'f', ']', 'l'])[1]? = some (.segment s) ∧
        (s.depth : Int) = Text.level [']', 'f', '[', 'f', ']', 'l'] 3 ∧
        Text.Carries [']', 'f', '[', 'f', ']', 'l'] 3 s.parent) ∧
      ∃ l, (events (standard : Gait Float) [']', 'f', '[', 'f', ']', 'l'])[2]? = some (.leaf l) ∧
        Text.Carries [']', 'f', '[', 'f', ']', 'l'] 5 l.segment := by
  have branching := branching_by_brackets (standard : Gait Float) [']', 'f', '[', 'f', ']', 'l']
  have level : Text.level [']', 'f', '[', 'f', ']', 'l'] 3 = 1 := by decide
  exact ⟨(branching.1 3 (by decide)).1.trans level, branching.2.1 3 rfl, branching.2.2 5 rfl⟩

end Gait

end Arbor
