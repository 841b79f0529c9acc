import Arbor.Proofs.Space.Exact
import Arbor.Proofs.Turtle.Insertion

/-!
# Grafting

What a word draws behind another word is what it draws alone, set onto the tree that is there: carried to where the
turtle stands, turned into its frame and made as thick as the branch. So a tree looks alike wherever the same word has
been read.
-/

namespace Arbor

/-- Where a branch is set onto a tree: the point that it starts from when it grows alone, how much thicker it is here,
the turtle that carries it on, and how many segments are there before it. -/
structure Graft (α : Type) where
  start : Vec3 α
  thickness : α
  ground : Turtle α
  placed : Nat

namespace Graft

variable {α : Type}

/-- The number of a segment of the branch; where it has none, the segment that carries the branch. -/
def carrier (b : Graft α) : Option Nat → Option Nat
  | none => b.ground.pose.segment
  | some i => some (i + b.placed)

variable [Scalar α]

def point (b : Graft α) (x : Vec3 α) : Vec3 α :=
  b.ground.pose.position + b.ground.pose.orientation.apply (x - b.start)

def pose (b : Graft α) (p : Pose α) : Pose α :=
  { position := b.point p.position
    orientation := b.ground.pose.orientation * p.orientation
    radius := p.radius * b.thickness
    segment := b.carrier p.segment }

def segment (b : Graft α) (s : Segment α) : Segment α :=
  { s with
    index := s.index + b.placed
    parent := b.carrier s.parent
    base := b.point s.base
    top := b.point s.top
    orientation := b.ground.pose.orientation * s.orientation
    baseRadius := s.baseRadius * b.thickness
    topRadius := s.topRadius * b.thickness
    depth := s.depth + b.ground.depth }

def leaf (b : Graft α) (l : Leaf α) : Leaf α :=
  { position := b.point l.position
    radius := l.radius * b.thickness
    segment := b.carrier l.segment }

def event (b : Graft α) : Event α → Event α
  | .segment s => .segment (b.segment s)
  | .leaf l => .leaf (b.leaf l)

/-- A turtle on the branch remembers its own poses, and below them those of the turtle that carries the branch. -/
def turtle (b : Graft α) (t : Turtle α) : Turtle α :=
  { pose := b.pose t.pose
    stack := t.stack.map b.pose ++ b.ground.stack
    underflows := b.ground.underflows + t.underflows }

theorem push_turtle (b : Graft α) (t : Turtle α) : (b.turtle t).push = b.turtle t.push := rfl

theorem pop_turtle (b : Graft α) {t : Turtle α} (opened : 0 < t.stack.length) : (b.turtle t).pop = b.turtle t.pop := by
  obtain ⟨pose, stack, underflows⟩ := t
  cases stack with
  | nil => exact absurd opened (Nat.lt_irrefl 0)
  | cons saved rest => rfl

theorem turn_turtle (b : Graft ℝ) (t : Turtle ℝ) (m : Mat3 ℝ) : (b.turtle t).turn m = b.turtle (t.turn m) := by
  simp only [Turtle.turn, turtle, pose, Mat3.mul_assoc]

theorem climb_turtle (b : Graft α) (t : Turtle α) (s : Segment α) :
    Gait.climb (b.turtle t) (b.segment s) = b.turtle (Gait.climb t s) := rfl

theorem point_add (b : Graft ℝ) (x v : Vec3 ℝ) :
    b.point (x + v) = b.point x + b.ground.pose.orientation.apply v := by
  ext <;> simp only [point, Mat3.apply, Vec3.dot, Vec3.add_eq, Vec3.sub_eq] <;> ring

theorem point_start (b : Graft ℝ) : b.point b.start = b.ground.pose.position := by
  ext <;> simp only [point, Mat3.apply, Vec3.dot, Vec3.add_eq, Vec3.sub_eq] <;> ring

theorem segment_turtle (b : Graft ℝ) (g : Gait ℝ) (t : Turtle ℝ) (k : Nat) :
    g.segment (b.turtle t) (k + b.placed) = b.segment (g.segment t k) := by
  have top : b.point t.pose.position + (b.ground.pose.orientation * t.pose.orientation).apply (Vec3.up.scale g.length) =
      b.point (t.pose.position + t.pose.orientation.apply (Vec3.up.scale g.length)) := by
    rw [Mat3.mul_apply, point_add]
  have narrowed : t.pose.radius * b.thickness * g.reduction = t.pose.radius * g.reduction * b.thickness :=
    mul_right_comm _ _ _
  simp [Gait.segment, segment, turtle, pose, Turtle.depth, top, narrowed]

end Graft

namespace Gait

/-- The place that a word leads to, as a place for a branch. -/
def graft {α : Type} [Scalar α] (g : Gait α) (before : Text) : Graft α :=
  { start := g.position
    thickness := (g.walk before).turtle.pose.radius / g.startRadius
    ground := (g.walk before).turtle
    placed := before.count (.scalar 'f') }

/-- A walk on a branch, and the walk that draws the branch alone. -/
structure Grafted (b : Graft ℝ) (grown alone : Walk ℝ) : Prop where
  turtle : grown.turtle = b.turtle alone.turtle
  placed : grown.placed = alone.placed + b.placed

theorem grafted_start (g : Gait ℝ) (before : Text) (thick : g.startRadius ≠ 0) :
    Grafted (g.graft before) (g.walk before) g.start := by
  refine ⟨?_, (g.placed_walk before).trans (Nat.zero_add _).symm⟩
  have position : (g.graft before).point g.position = (g.walk before).turtle.pose.position := Graft.point_start _
  have radius : g.startRadius * (g.graft before).thickness = (g.walk before).turtle.pose.radius :=
    mul_div_cancel₀ _ thick
  have orientation := Mat3.mul_identity (g.walk before).turtle.pose.orientation
  simp only [Graft.turtle, Graft.pose, start, Turtle.start, position, radius]
  simp [graft, orientation, Graft.carrier]

theorem grafted_step (g : Gait ℝ) {b : Graft ℝ} {grown alone : Walk ℝ} (same : Grafted b grown alone) {p : CodePoint}
    (opened : p = .scalar ']' → 0 < alone.turtle.stack.length) :
    Grafted b (g.step grown p) (g.step alone p) ∧
      g.placement? grown (Symbol.ofCodePoint p) = (g.placement? alone (Symbol.ofCodePoint p)).map b.event := by
  obtain ⟨turtle, placed⟩ := same
  rcases p.quiet_or with rfl | rfl | rfl | rfl | quiet
  · have next : g.segment grown.turtle grown.placed = b.segment (g.segment alone.turtle alone.placed) := by
      rw [turtle, placed, b.segment_turtle]
    refine ⟨⟨?_, ?_⟩, ?_⟩
    · rw [step_forward, step_forward, next, turtle, b.climb_turtle]
    · rw [step_forward, step_forward, placed]
      exact Nat.add_right_comm _ _ _
    · simp [placement?, Symbol.ofCodePoint, next, Graft.event]
  · refine ⟨⟨turtle, placed⟩, ?_⟩
    simp [placement?, Symbol.ofCodePoint, turtle, leaf, Graft.event, Graft.leaf, Graft.turtle, Graft.pose]
  · refine ⟨⟨?_, placed⟩, rfl⟩
    rw [step_open, step_open, turtle, b.push_turtle]
  · refine ⟨⟨?_, placed⟩, rfl⟩
    rw [step_close, step_close, turtle, b.pop_turtle (opened rfl)]
  · rw [g.placement?_quiet grown quiet, g.placement?_quiet alone quiet]
    rcases g.step_turns_or_passes quiet with ⟨axis, reversed, turns⟩ | passes
    · rw [turns grown, turns alone]
      exact ⟨⟨by rw [turtle, b.turn_turtle], placed⟩, rfl⟩
    · rw [passes grown, passes alone]
      exact ⟨⟨turtle, placed⟩, rfl⟩

theorem length_stack_step {α : Type} [Scalar α] (g : Gait α) (w : Walk α) {p : CodePoint}
    (opened : p = .scalar ']' → 0 < w.turtle.stack.length) :
    (g.step w p).turtle.stack.length + (if p = .scalar ']' then 1 else 0) =
      w.turtle.stack.length + if p = .scalar '[' then 1 else 0 := by
  obtain ⟨next, stack, length, -⟩ := g.stack_step (List.append_nil w.turtle.stack).symm opened
  rw [stack, List.append_nil]
  exact length

theorem grafted_resume (g : Gait ℝ) {b : Graft ℝ} {grown alone : Walk ℝ} (same : Grafted b grown alone) {word : Text}
    (follows : word.Follows alone.turtle.stack.length) :
    Grafted b (g.resume grown word) (g.resume alone word) ∧ g.growth grown word = (g.growth alone word).map b.event := by
  induction word generalizing grown alone with
  | nil => exact ⟨same, rfl⟩
  | cons p word ih =>
      obtain ⟨opened, rest⟩ := Text.follows_cons follows
      obtain ⟨next, event⟩ := g.grafted_step same opened
      obtain ⟨last, events⟩ := ih next (rest _ (g.length_stack_step alone opened))
      refine ⟨last, ?_⟩
      rw [growth, growth, event, events, List.map_append, Option.toList_map]

/-- Behind another word, a word that closes no brackets but its own draws what it draws alone, set onto the tree where
the other word ends, and it leaves the turtle where it leaves it alone, on that branch. -/
theorem branches_self_similar (g : Gait ℝ) (before word : Text) (thick : g.startRadius ≠ 0) (grounded : word.Grounded) :
    g.events (before ++ word) = g.events before ++ (g.events word).map (g.graft before).event ∧
      (g.walk (before ++ word)).turtle = (g.graft before).turtle (g.walk word).turtle := by
  have follows : word.Follows g.start.turtle.stack.length := grounded
  obtain ⟨same, events⟩ := g.grafted_resume (g.grafted_start before thick) follows
  have alone : g.events word = g.growth g.start word := by
    have placed := g.events_append [] word
    rwa [List.nil_append] at placed
  refine ⟨?_, ?_⟩
  · rw [events_append, events, alone]
  · rw [walk_append]
    exact same.turtle

theorem branches_self_similar_fork :
    (standard : Gait ℝ).startRadius ≠ 0 ∧ Text.Grounded ['f', '[', '^', 'f', ']', 'l'] ∧
      events (standard : Gait ℝ) ['f', '+', 'f', '[', '^', 'f', ']', 'l'] =
        events standard ['f', '+'] ++
          (events standard ['f', '[', '^', 'f', ']', 'l']).map (graft standard ['f', '+']).event := by
  have thick : (standard : Gait ℝ).startRadius ≠ 0 := one_ne_zero
  have grounded : Text.Grounded ['f', '[', '^', 'f', ']', 'l'] := by decide
  exact ⟨thick, grounded, (branches_self_similar standard ['f', '+'] _ thick grounded).1⟩

end Gait

end Arbor
