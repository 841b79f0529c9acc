import Arbor.Fault
import Arbor.Space.Mat3

namespace Arbor

inductive Symbol where
  | forward
  | leaf
  | push
  | pop
  | turnLeft
  | turnRight
  | pitchUp
  | pitchDown
  | rollLeft
  | rollRight
  | noop
  deriving DecidableEq, Repr

/-- A local axis of the turtle: `heading` is its first one, `left` its second, `up` its third. -/
inductive Axis where
  | heading
  | left
  | up
  deriving DecidableEq, Repr

/-- A code point that places nothing and is no bracket; it may turn the turtle. -/
def CodePoint.Quiet (p : CodePoint) : Prop :=
  p ≠ .scalar 'f' ∧ p ≠ .scalar 'l' ∧ p ≠ .scalar '[' ∧ p ≠ .scalar ']'

theorem CodePoint.quiet_or (p : CodePoint) :
    p = .scalar 'f' ∨ p = .scalar 'l' ∨ p = .scalar '[' ∨ p = .scalar ']' ∨ p.Quiet := by
  by_cases forward : p = .scalar 'f'
  · exact .inl forward
  · by_cases leaf : p = .scalar 'l'
    · exact .inr (.inl leaf)
    · by_cases opening : p = .scalar '['
      · exact .inr (.inr (.inl opening))
      · by_cases closing : p = .scalar ']'
        · exact .inr (.inr (.inr (.inl closing)))
        · exact .inr (.inr (.inr (.inr ⟨forward, leaf, opening, closing⟩)))

namespace Symbol

def ofCodePoint : CodePoint → Symbol
  | .scalar 'f' => forward
  | .scalar 'l' => leaf
  | .scalar '[' => push
  | .scalar ']' => pop
  | .scalar '+' => turnLeft
  | .scalar '-' => turnRight
  | .scalar '^' => pitchUp
  | .scalar 'v' => pitchDown
  | .scalar '<' => rollLeft
  | .scalar '>' => rollRight
  | _ => noop

/-- Only single code points are symbols. -/
def ofText : Text → Symbol
  | [p] => ofCodePoint p
  | _ => noop

def name : Symbol → String
  | forward => "FORWARD"
  | leaf => "LEAF"
  | push => "PUSH"
  | pop => "POP"
  | turnLeft => "TURN_LEFT"
  | turnRight => "TURN_RIGHT"
  | pitchUp => "PITCH_UP"
  | pitchDown => "PITCH_DOWN"
  | rollLeft => "ROLL_LEFT"
  | rollRight => "ROLL_RIGHT"
  | noop => "NOOP"

def rotation? : Symbol → Option (Axis × Bool)
  | turnLeft => some (.up, false)
  | turnRight => some (.up, true)
  | pitchUp => some (.left, false)
  | pitchDown => some (.left, true)
  | rollLeft => some (.heading, true)
  | rollRight => some (.heading, false)
  | _ => none

theorem ofCodePoint_quiet {p : CodePoint} (quiet : p.Quiet) :
    (∃ turn, (ofCodePoint p).rotation? = some turn) ∨ ofCodePoint p = noop := by
  obtain ⟨forward, leaf, opening, closing⟩ := quiet
  unfold ofCodePoint
  split <;> simp_all [rotation?]

end Symbol

namespace Axis

def ofText? : Text → Option Axis
  | [.scalar 'H'] => some heading
  | [.scalar 'L'] => some left
  | [.scalar 'U'] => some up
  | _ => none

variable {α : Type} [Scalar α]

/-- The turn about a local axis, by degrees. About the second and third axes it runs the other way round than about the
first. -/
def rotation (axis : Axis) (degrees : α) : Mat3 α :=
  let a := Scalar.radians degrees
  let c := Scalar.cos a
  let s := Scalar.sin a
  match axis with
  | up => ⟨⟨c, s, 0⟩, ⟨-s, c, 0⟩, ⟨0, 0, 1⟩⟩
  | left => ⟨⟨c, 0, -s⟩, ⟨0, 1, 0⟩, ⟨s, 0, c⟩⟩
  | heading => ⟨⟨1, 0, 0⟩, ⟨0, c, -s⟩, ⟨0, s, c⟩⟩

def rotationNamed (axis : Text) (degrees : α) : Except (Fault α) (Mat3 α) :=
  match ofText? axis with
  | some a => .ok (a.rotation degrees)
  | none => .error (.unknownAxis axis)

end Axis

end Arbor
