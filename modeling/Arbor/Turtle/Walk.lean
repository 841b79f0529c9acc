import Arbor.Turtle.State
import Arbor.Turtle.Event

namespace Arbor

/-- What a turtle walks with: the radius of the first segment, the factor that each segment narrows by, the length of
every segment, the angle of every turn in degrees, and where it starts. -/
structure Gait (α : Type) where
  startRadius : α
  reduction : α
  length : α
  angle : α
  position : Vec3 α
  deriving Repr

structure Walk (α : Type) where
  turtle : Turtle α
  placed : Nat
  passive : Nat
  events : Array (Event α)
  deriving Repr

namespace Gait

variable {α : Type} [Scalar α]

def standard : Gait α := ⟨1, Scalar.ratio 8 10, 1, Scalar.ofInt 10, 0⟩

def segment (g : Gait α) (t : Turtle α) (index : Nat) : Segment α :=
  let base := t.pose.position
  { index := index
    parent := t.pose.segment
    base := base
    top := base + t.pose.orientation.apply (Vec3.up.scale g.length)
    orientation := t.pose.orientation
    baseRadius := t.pose.radius
    topRadius := t.pose.radius * g.reduction
    depth := t.depth
    height := g.length }

def climb (t : Turtle α) (s : Segment α) : Turtle α :=
  { t with pose := { t.pose with
      position := s.top
      radius := s.topRadius
      segment := some s.index } }

def leaf (t : Turtle α) : Leaf α := ⟨t.pose.position, t.pose.radius, t.pose.segment⟩

def turn (g : Gait α) (axis : Axis) (reversed : Bool) : Mat3 α :=
  axis.rotation (if reversed then -g.angle else g.angle)

def start (g : Gait α) : Walk α := ⟨Turtle.start g.position g.startRadius, 0, 0, #[]⟩

def placement? (g : Gait α) (w : Walk α) (symbol : Symbol) : Option (Event α) :=
  match symbol with
  | .forward => some (.segment (g.segment w.turtle w.placed))
  | .leaf => some (.leaf (leaf w.turtle))
  | _ => none

def step (g : Gait α) (w : Walk α) (p : CodePoint) : Walk α :=
  match Symbol.ofCodePoint p with
  | .forward =>
      let s := g.segment w.turtle w.placed
      { w with turtle := climb w.turtle s, placed := w.placed + 1, events := w.events.push (.segment s) }
  | .leaf => { w with events := w.events.push (.leaf (leaf w.turtle)) }
  | .push => { w with turtle := w.turtle.push }
  | .pop => { w with turtle := w.turtle.pop }
  | symbol =>
      match symbol.rotation? with
      | some (axis, reversed) => { w with turtle := w.turtle.turn (g.turn axis reversed) }
      | none => { w with passive := w.passive + 1 }

def resume (g : Gait α) (w : Walk α) (word : Text) : Walk α := word.foldl g.step w

def walk (g : Gait α) (word : Text) : Walk α := g.resume g.start word

def events (g : Gait α) (word : Text) : List (Event α) := (g.walk word).events.toList

/-- Walk on until `count` events have been placed in all. The walk then rests at the last of them: after a segment the
turtle has not climbed it yet. -/
def suspend (g : Gait α) (count : Nat) (w : Walk α) : Text → Walk α
  | [] => w
  | p :: word =>
      match g.placement? w (Symbol.ofCodePoint p) with
      | some event =>
          if w.events.size + 1 = count then { w with events := w.events.push event }
          else suspend g count (g.step w p) word
      | none => suspend g count (g.step w p) word

/-- Walk a word, the whole of it or until some events are drawn, after a walk that left the turtle `last`. With no event
to draw the walk does not begin. -/
def draw (g : Gait α) (last : Option (Turtle α)) (take : Option Nat) (word : Text) :
    List (Event α) × Option (Turtle α) :=
  match take with
  | some 0 => ([], last)
  | some count =>
      let w := g.suspend count g.start word
      (w.events.toList, some w.turtle)
  | none =>
      let w := g.walk word
      (w.events.toList, some w.turtle)

@[simp] theorem resume_nil (g : Gait α) (w : Walk α) : g.resume w [] = w := rfl

@[simp] theorem resume_cons (g : Gait α) (w : Walk α) (p : CodePoint) (word : Text) :
    g.resume w (p :: word) = g.resume (g.step w p) word := rfl

@[simp] theorem resume_append (g : Gait α) (w : Walk α) (a b : Text) :
    g.resume w (a ++ b) = g.resume (g.resume w a) b := by
  simp [resume, List.foldl_append]

@[simp] theorem step_forward (g : Gait α) (w : Walk α) :
    g.step w (.scalar 'f') =
      { w with
        turtle := climb w.turtle (g.segment w.turtle w.placed)
        placed := w.placed + 1
        events := w.events.push (.segment (g.segment w.turtle w.placed)) } := rfl

@[simp] theorem step_leaf (g : Gait α) (w : Walk α) :
    g.step w (.scalar 'l') = { w with events := w.events.push (.leaf (leaf w.turtle)) } := rfl

@[simp] theorem step_open (g : Gait α) (w : Walk α) :
    g.step w (.scalar '[') = { w with turtle := w.turtle.push } := rfl

@[simp] theorem step_close (g : Gait α) (w : Walk α) :
    g.step w (.scalar ']') = { w with turtle := w.turtle.pop } := rfl

theorem step_of_rotation? (g : Gait α) (w : Walk α) {p : CodePoint} {axis : Axis} {reversed : Bool}
    (turns : (Symbol.ofCodePoint p).rotation? = some (axis, reversed)) :
    g.step w p = { w with turtle := w.turtle.turn (g.turn axis reversed) } := by
  unfold step
  cases symbol : Symbol.ofCodePoint p <;> simp_all [Symbol.rotation?]

theorem step_turns_or_passes (g : Gait α) {p : CodePoint} (quiet : p.Quiet) :
    (∃ axis reversed, ∀ w : Walk α, g.step w p = { w with turtle := w.turtle.turn (g.turn axis reversed) }) ∨
      ∀ w : Walk α, g.step w p = { w with passive := w.passive + 1 } := by
  rcases Symbol.ofCodePoint_quiet quiet with ⟨⟨axis, reversed⟩, turns⟩ | passive
  · exact .inl ⟨axis, reversed, fun w => g.step_of_rotation? w turns⟩
  · exact .inr fun w => by simp [step, passive, Symbol.rotation?]

theorem step_quiet (g : Gait α) {p : CodePoint} (quiet : p.Quiet) :
    ∃ (turned : Mat3 α → Mat3 α) (passed : Nat), ∀ w : Walk α, g.step w p =
      { w with
        turtle := { w.turtle with
          pose := { w.turtle.pose with orientation := turned w.turtle.pose.orientation } }
        passive := w.passive + passed } := by
  rcases g.step_turns_or_passes quiet with ⟨axis, reversed, turns⟩ | passes
  · exact ⟨(· * g.turn axis reversed), 0, turns⟩
  · exact ⟨id, 1, passes⟩

theorem placement?_quiet (g : Gait α) (w : Walk α) {p : CodePoint} (quiet : p.Quiet) :
    g.placement? w (Symbol.ofCodePoint p) = none := by
  rcases Symbol.ofCodePoint_quiet quiet with ⟨turn, turns⟩ | passive
  · cases symbol : Symbol.ofCodePoint p <;> simp_all [placement?, Symbol.rotation?]
  · rw [passive]
    rfl

end Gait

end Arbor
