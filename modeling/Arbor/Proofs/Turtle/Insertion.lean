import Arbor.Proofs.Turtle.Continuity
import Arbor.Proofs.Turtle.Level

namespace Arbor

/-- A number moved up by `amount`, unless it lies below a bound. -/
def movedUp (bound amount k : Nat) : Nat := if bound ≤ k then k + amount else k

theorem movedUp_of_lt {bound k : Nat} (amount : Nat) (below : k < bound) : movedUp bound amount k = k :=
  if_neg (Nat.not_le_of_lt below)

theorem movedUp_of_le {bound k : Nat} (amount : Nat) (above : bound ≤ k) :
    movedUp bound amount k = k + amount :=
  if_pos above

section

variable {α : Type}

def Segment.renumber (bound amount : Nat) (s : Segment α) : Segment α :=
  { s with index := movedUp bound amount s.index, parent := s.parent.map (movedUp bound amount) }

def Leaf.renumber (bound amount : Nat) (l : Leaf α) : Leaf α :=
  { l with segment := l.segment.map (movedUp bound amount) }

def Event.renumber (bound amount : Nat) : Event α → Event α
  | .segment s => .segment (s.renumber bound amount)
  | .leaf l => .leaf (l.renumber bound amount)

def Pose.renumber (bound amount : Nat) (pose : Pose α) : Pose α :=
  { pose with segment := pose.segment.map (movedUp bound amount) }

def Turtle.renumber (bound amount : Nat) (t : Turtle α) : Turtle α :=
  { t with pose := t.pose.renumber bound amount, stack := t.stack.map (Pose.renumber bound amount) }

theorem Pose.renumber_of_lt {bound : Nat} (amount : Nat) {pose : Pose α}
    (below : ∀ k, pose.segment = some k → k < bound) : pose.renumber bound amount = pose := by
  obtain ⟨position, orientation, radius, segment⟩ := pose
  cases segment with
  | none => rfl
  | some k => simp [renumber, movedUp_of_lt amount (below k rfl)]

theorem Turtle.renumber_of_lt {bound : Nat} (amount : Nat) {t : Turtle α}
    (below : ∀ pose ∈ t.pose :: t.stack, ∀ k, pose.segment = some k → k < bound) :
    t.renumber bound amount = t := by
  have current := Pose.renumber_of_lt amount (below t.pose List.mem_cons_self)
  have saved : t.stack.map (Pose.renumber bound amount) = t.stack := by
    rw [List.map_congr_left fun pose member =>
      Pose.renumber_of_lt amount (below pose (List.mem_cons_of_mem _ member))]
    exact List.map_id' t.stack
  rw [renumber, current, saved]

theorem Turtle.push_renumber (bound amount : Nat) (t : Turtle α) :
    (t.renumber bound amount).push = t.push.renumber bound amount := rfl

theorem Turtle.pop_renumber (bound amount : Nat) (t : Turtle α) :
    (t.renumber bound amount).pop = t.pop.renumber bound amount := by
  obtain ⟨pose, stack, underflows⟩ := t
  cases stack <;> rfl

end

namespace Gait

variable {α : Type} [Scalar α]

structure Renumbered (bound amount : Nat) (moved w : Walk α) : Prop where
  turtle : moved.turtle = w.turtle.renumber bound amount
  placed : moved.placed = w.placed + amount
  bound_le : bound ≤ w.placed

theorem segment_renumber (g : Gait α) {bound amount : Nat} (t : Turtle α) {k : Nat} (above : bound ≤ k) :
    g.segment (t.renumber bound amount) (k + amount) = (g.segment t k).renumber bound amount := by
  simp [segment, Segment.renumber, Turtle.renumber, Pose.renumber, Turtle.depth, movedUp_of_le amount above]

omit [Scalar α] in
theorem climb_renumber (bound amount : Nat) (t : Turtle α) (s : Segment α) :
    climb (t.renumber bound amount) (s.renumber bound amount) = (climb t s).renumber bound amount := rfl

theorem renumbered_step (g : Gait α) {bound amount : Nat} {moved w : Walk α}
    (same : Renumbered bound amount moved w) (p : CodePoint) :
    Renumbered bound amount (g.step moved p) (g.step w p) ∧
      g.placement? moved (Symbol.ofCodePoint p) =
        (g.placement? w (Symbol.ofCodePoint p)).map (Event.renumber bound amount) := by
  obtain ⟨turtle, placed, above⟩ := same
  rcases p.quiet_or with rfl | rfl | rfl | rfl | quiet
  · have next : g.segment moved.turtle moved.placed =
        (g.segment w.turtle w.placed).renumber bound amount := by
      rw [turtle, placed, g.segment_renumber w.turtle above]
    refine ⟨⟨?_, ?_, ?_⟩, ?_⟩
    · simp only [step_forward, next]
      rw [turtle, climb_renumber]
    · simp only [step_forward]
      omega
    · exact Nat.le_succ_of_le above
    · simp [placement?, Symbol.ofCodePoint, next, Event.renumber]
  · refine ⟨⟨turtle, placed, above⟩, ?_⟩
    simp [placement?, Symbol.ofCodePoint, turtle, leaf, Event.renumber, Leaf.renumber, Turtle.renumber,
      Pose.renumber]
  · refine ⟨⟨?_, placed, above⟩, rfl⟩
    simp only [step_open, turtle, Turtle.push_renumber]
  · refine ⟨⟨?_, placed, above⟩, rfl⟩
    simp only [step_close, turtle, Turtle.pop_renumber]
  · obtain ⟨turned, passed, step⟩ := g.step_quiet quiet
    rw [step moved, step w, g.placement?_quiet moved quiet, g.placement?_quiet w quiet, turtle]
    exact ⟨⟨rfl, placed, above⟩, rfl⟩

theorem renumbered_resume (g : Gait α) {bound amount : Nat} {moved w : Walk α}
    (same : Renumbered bound amount moved w) (word : Text) :
    Renumbered bound amount (g.resume moved word) (g.resume w word) ∧
      g.growth moved word = (g.growth w word).map (Event.renumber bound amount) := by
  induction word generalizing moved w with
  | nil => exact ⟨same, rfl⟩
  | cons p word ih =>
      obtain ⟨next, event⟩ := g.renumbered_step same p
      obtain ⟨last, events⟩ := ih next
      refine ⟨last, ?_⟩
      rw [growth, growth, event, events, List.map_append, Option.toList_map]

theorem stack_step (g : Gait α) {w : Walk α} {near base : List (Pose α)}
    (stack : w.turtle.stack = near ++ base) {p : CodePoint} (opened : p = .scalar ']' → 0 < near.length) :
    ∃ next, (g.step w p).turtle.stack = next ++ base ∧
      next.length + (if p = .scalar ']' then 1 else 0) =
        near.length + (if p = .scalar '[' then 1 else 0) ∧
      (g.step w p).turtle.underflows = w.turtle.underflows := by
  rcases p.quiet_or with rfl | rfl | rfl | rfl | quiet
  · exact ⟨near, stack, rfl, rfl⟩
  · exact ⟨near, stack, rfl, rfl⟩
  · exact ⟨w.turtle.pose :: near, by simp [Turtle.push, stack], rfl, rfl⟩
  · cases near with
    | nil => exact absurd (opened rfl) (Nat.lt_irrefl 0)
    | cons pose near =>
        rw [List.cons_append] at stack
        refine ⟨near, ?_, rfl, ?_⟩
        · simp only [step_close, Turtle.pop, stack]
        · simp only [step_close, Turtle.pop, stack]
  · obtain ⟨turned, passed, step⟩ := g.step_quiet quiet
    rw [step, if_neg quiet.2.2.1, if_neg quiet.2.2.2]
    exact ⟨near, stack, rfl, rfl⟩

theorem stack_resume (g : Gait α) {w : Walk α} {near base : List (Pose α)}
    (stack : w.turtle.stack = near ++ base) {word : Text} (above : word.Follows near.length) :
    ∃ later, (g.resume w word).turtle.stack = later ++ base ∧
      later.length + word.count (.scalar ']') = near.length + word.count (.scalar '[') ∧
      (g.resume w word).turtle.underflows = w.turtle.underflows := by
  induction word generalizing w near with
  | nil => exact ⟨near, stack, rfl, rfl⟩
  | cons p word ih =>
      obtain ⟨opened, rest⟩ := Text.follows_cons above
      obtain ⟨next, stackNext, length, underflows⟩ := g.stack_step stack opened
      obtain ⟨later, stackLater, lengthLater, underflowsLater⟩ := ih stackNext (rest next.length length)
      refine ⟨later, stackLater, ?_, underflowsLater.trans underflows⟩
      simp only [List.count_cons, beq_iff_eq]
      omega

/-- A branch ends where it began. -/
theorem turtle_branch (g : Gait α) (w : Walk α) {word : Text} (balanced : word.Balanced) :
    (g.resume w (.scalar '[' :: word ++ [.scalar ']'])).turtle = w.turtle := by
  have above : word.Follows ([] : List (Pose α)).length := balanced.1
  have remembered : (g.step w (.scalar '[')).turtle.stack = [] ++ w.turtle.push.stack := rfl
  obtain ⟨later, stack, length, underflows⟩ := g.stack_resume remembered above
  have empty : later = [] := by
    apply List.eq_nil_of_length_eq_zero
    have total := balanced.2
    rw [List.length_nil] at length
    omega
  subst later
  rw [resume_append, resume_cons, resume_cons, resume_nil, step_close]
  simp only [Turtle.pop, stack, underflows]
  rfl

theorem renumbered_branch (g : Gait α) (before : Text) {word : Text} (balanced : word.Balanced) :
    Renumbered (before.count (.scalar 'f')) (word.count (.scalar 'f'))
      (g.walk (before ++ (.scalar '[' :: word ++ [.scalar ']']))) (g.walk before) := by
  have unbroken := g.unbroken_walk before
  refine ⟨?_, ?_, ?_⟩
  -- Everything that is remembered here was placed before the branch, so no number of it moves.
  · rw [walk_append, g.turtle_branch _ balanced, Turtle.renumber_of_lt]
    intro pose member
    have earlier := g.standsOn_lt (unbroken.poses pose member)
    rwa [← unbroken.placed, g.placed_walk before] at earlier
  · rw [placed_walk, placed_walk, List.count_append]
    simp
  · exact Nat.le_of_eq (g.placed_walk before).symm

/-- A branch that is put into a word leaves its events between those of the word, and apart from the numbers of
the segments behind it nothing else changes. -/
theorem branch_inserted (g : Gait α) (before after : Text) {word : Text} (balanced : word.Balanced) :
    ∃ inside behind,
      g.events (before ++ (.scalar '[' :: word)) = g.events before ++ inside ∧
      (segments inside).length = word.count (.scalar 'f') ∧
      g.events (before ++ after) = g.events before ++ behind ∧
      g.events (before ++ (.scalar '[' :: word ++ [.scalar ']']) ++ after) =
        g.events before ++ inside ++
          behind.map (Event.renumber (before.count (.scalar 'f')) (word.count (.scalar 'f'))) ∧
      (g.walk (before ++ (.scalar '[' :: word ++ [.scalar ']']) ++ after)).turtle =
        (g.walk (before ++ after)).turtle.renumber (before.count (.scalar 'f'))
          (word.count (.scalar 'f')) := by
  obtain ⟨same, events⟩ := g.renumbered_resume (g.renumbered_branch before balanced) after
  have inside := g.events_append before (.scalar '[' :: word)
  refine ⟨g.growth (g.walk before) (.scalar '[' :: word), g.growth (g.walk before) after, inside, ?_, ?_, ?_, ?_⟩
  · have counted := congrArg (fun events => (segments events).length) inside
    simp only [segments_append, List.length_append, length_segments_events, List.count_append] at counted
    have bracket : (CodePoint.scalar '[' :: word).count (.scalar 'f') = word.count (.scalar 'f') := rfl
    omega
  · exact g.events_append before after
  · rw [events_append, events, events_append, growth_append]
    simp [growth, placement?, Symbol.ofCodePoint]
  · rw [g.walk_append (before ++ _) after, g.walk_append before after]
    exact same.turtle

theorem branch_inserted_bough :
    Text.Balanced ['l', '[', 'f', ']'] ∧
      (walk (standard : Gait Float) ['f', '[', 'l', '[', 'f', ']', ']', 'f']).turtle =
        (walk (standard : Gait Float) ['f', 'f']).turtle.renumber 1 1 := by
  have balanced : Text.Balanced ['l', '[', 'f', ']'] := by decide
  obtain ⟨_, _, _, _, _, _, turtle⟩ :=
    branch_inserted (standard : Gait Float) ['f'] ['f'] balanced
  exact ⟨balanced, turtle⟩

end Gait

end Arbor
