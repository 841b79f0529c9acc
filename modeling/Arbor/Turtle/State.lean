import Arbor.Turtle.Symbol

namespace Arbor

/-- What an opening bracket saves: the place, the frame, the radius and the segment last placed. -/
structure Pose (α : Type) where
  position : Vec3 α
  orientation : Mat3 α
  radius : α
  segment : Option Nat
  deriving Repr

structure Turtle (α : Type) where
  pose : Pose α
  stack : List (Pose α)
  underflows : Nat
  deriving Repr

namespace Turtle

variable {α : Type}

def push (t : Turtle α) : Turtle α := { t with stack := t.pose :: t.stack }

def pop (t : Turtle α) : Turtle α :=
  match t.stack with
  | [] => { t with underflows := t.underflows + 1 }
  | pose :: rest => { t with pose := pose, stack := rest }

def canPop (t : Turtle α) : Bool := !t.stack.isEmpty

def depth (t : Turtle α) : Nat := t.stack.length

@[simp] theorem pop_push (t : Turtle α) : t.push.pop = t := rfl

@[simp] theorem depth_push (t : Turtle α) : t.push.depth = t.depth + 1 := rfl

theorem mem_of_mem_push {t : Turtle α} {pose : Pose α} (member : pose ∈ t.push.pose :: t.push.stack) :
    pose ∈ t.pose :: t.stack := by
  rcases List.mem_cons.mp member with rfl | saved
  · exact List.mem_cons_self
  · exact saved

theorem mem_of_mem_pop {t : Turtle α} {pose : Pose α} (member : pose ∈ t.pop.pose :: t.pop.stack) :
    pose ∈ t.pose :: t.stack := by
  cases stack : t.stack with
  | nil => simpa [pop, stack] using member
  | cons saved rest =>
      simp only [pop, stack] at member
      exact List.mem_cons_of_mem _ member

def withRadius (t : Turtle α) (radius : α) : Turtle α :=
  { t with pose := { t.pose with radius := radius } }

variable [Scalar α]

def start (position : Vec3 α) (radius : α) : Turtle α :=
  { pose := ⟨position, Mat3.identity, radius, none⟩, stack := [], underflows := 0 }

def turn (t : Turtle α) (m : Mat3 α) : Turtle α :=
  { t with pose := { t.pose with orientation := t.pose.orientation * m } }

def rotate (t : Turtle α) (axis : Text) (degrees : α) : Except (Fault α) (Turtle α) := do
  return t.turn (← Axis.rotationNamed axis degrees)

def heading (t : Turtle α) : Vec3 α := t.pose.orientation.apply Vec3.up

def advance (t : Turtle α) (distance : α) : Turtle α :=
  { t with pose := { t.pose with
      position := t.pose.position + t.heading.scale distance
      segment := some (t.pose.segment.elim 0 (· + 1)) } }

end Turtle

end Arbor
