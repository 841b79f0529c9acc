import Arbor.Proofs.Space.Likeness
import Arbor.Turtle.Walk

namespace Arbor

namespace Likeness

section

variable {α : Type} (l : Likeness α)

def pose (p : Pose α) : Pose α := { p with position := l.point p.position, radius := l.length p.radius }

def turtle (t : Turtle α) : Turtle α := { t with pose := l.pose t.pose, stack := t.stack.map l.pose }

def segment (s : Segment α) : Segment α :=
  { s with
    base := l.point s.base
    top := l.point s.top
    baseRadius := l.length s.baseRadius
    topRadius := l.length s.topRadius
    height := l.length s.height }

def leaf (f : Leaf α) : Leaf α := { f with position := l.point f.position, radius := l.length f.radius }

def event : Event α → Event α
  | .segment s => .segment (l.segment s)
  | .leaf f => .leaf (l.leaf f)

def walk (w : Walk α) : Walk α := { w with turtle := l.turtle w.turtle, events := w.events.map l.event }

def gait (g : Gait α) : Gait α :=
  { g with startRadius := l.length g.startRadius, length := l.length g.length, position := l.point g.position }

theorem segments_map_event (events : List (Event α)) :
    segments (events.map l.event) = (segments events).map l.segment := by
  induction events with
  | nil => rfl
  | cons event events ih =>
      cases event with
      | segment s => exact congrArg (l.segment s :: ·) ih
      | leaf f => exact ih

theorem leaves_map_event (events : List (Event α)) :
    leaves (events.map l.event) = (leaves events).map l.leaf := by
  induction events with
  | nil => rfl
  | cons event events ih =>
      cases event with
      | segment s => exact ih
      | leaf f => exact congrArg (l.leaf f :: ·) ih

theorem pop_turtle (t : Turtle α) : (l.turtle t).pop = l.turtle t.pop := by
  obtain ⟨pose, stack, underflows⟩ := t
  cases stack <;> rfl

end

namespace Similar

variable {l : Likeness ℝ} {k : ℝ}

theorem segment_turtle (similar : l.Similar k) (g : Gait ℝ) (t : Turtle ℝ) (index : Nat) :
    (l.gait g).segment (l.turtle t) index = l.segment (g.segment t index) := by
  have top : l.point t.pose.position + t.pose.orientation.apply (Vec3.up.scale (l.length g.length)) =
      l.point (t.pose.position + t.pose.orientation.apply (Vec3.up.scale g.length)) := by
    rw [similar.point, similar.scale_length, Mat3.apply_scale]
  have narrowed := similar.length_mul t.pose.radius g.reduction
  simp [Gait.segment, segment, gait, turtle, pose, Turtle.depth, top, narrowed]

theorem walk_step (similar : l.Similar k) (g : Gait ℝ) (w : Walk ℝ) (p : CodePoint) :
    (l.gait g).step (l.walk w) p = l.walk (g.step w p) := by
  rcases p.quiet_or with rfl | rfl | rfl | rfl | quiet
  · have placed : (l.gait g).segment (l.walk w).turtle (l.walk w).placed = l.segment (g.segment w.turtle w.placed) :=
      similar.segment_turtle g w.turtle w.placed
    rw [Gait.step_forward, Gait.step_forward, placed]
    simp only [walk, Array.map_push]
    rfl
  · rw [Gait.step_leaf, Gait.step_leaf]
    simp only [walk, Array.map_push]
    rfl
  · rfl
  · rw [Gait.step_close, Gait.step_close]
    simp only [walk, pop_turtle]
  · rcases Symbol.ofCodePoint_quiet quiet with ⟨⟨axis, reversed⟩, turns⟩ | passive
    · rw [Gait.step_of_rotation? _ _ turns, Gait.step_of_rotation? _ _ turns]
      rfl
    · simp [Gait.step, passive, Symbol.rotation?, walk]

theorem walk_resume (similar : l.Similar k) (g : Gait ℝ) (w : Walk ℝ) (word : Text) :
    (l.gait g).resume (l.walk w) word = l.walk (g.resume w word) := by
  induction word generalizing w with
  | nil => rfl
  | cons p word ih => rw [Gait.resume_cons, Gait.resume_cons, similar.walk_step, ih]

theorem walk_gait (similar : l.Similar k) (g : Gait ℝ) (word : Text) :
    (l.gait g).walk word = l.walk (g.walk word) := by
  have start : (l.gait g).start = l.walk g.start := by simp [Gait.start, gait, walk, turtle, pose, Turtle.start]
  rw [Gait.walk, start, similar.walk_resume, Gait.walk]

end Similar

end Likeness

end Arbor
