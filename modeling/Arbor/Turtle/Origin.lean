import Arbor.Turtle.Walk

/-!
# Origins

A turtle may be told to start from any number of coordinates. Three are a point, and a single one serves
all three axes. From any other number nothing can grow, yet until the first segment a turtle can turn,
remember where it is and leave leaves.
-/

namespace Arbor

variable {α : Type} [Scalar α]

namespace Origin

/-- The point that a turtle starts from; where coordinates make none, it does not matter. -/
def point (origin : List α) : Vec3 α := (Vec3.spread? origin).getD 0

omit [Scalar α] in
def coordinates (origin : List α) (segment : Option Nat) (place : Vec3 α) : List α :=
  match segment with
  | none => origin
  | some _ => place.toList

omit [Scalar α] in
/-- Whether the origin carries what has been placed from it. -/
def check (origin : List α) (events : List (Event α)) : Except (Fault α) Unit :=
  if (Vec3.spread? origin).isNone && !(segments events).isEmpty then .error .shape else .ok ()

end Origin

end Arbor
