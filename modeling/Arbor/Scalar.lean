/-!
# Coordinates

The numbers that shapes are computed with. Every length, angle and position of a tree is a `Scalar`,
so one definition serves binary64 arithmetic, where it is run, exact arithmetic, where it is measured,
and arithmetic left open, where only the order of the operations counts.
-/

namespace Arbor

/-- Arithmetic on coordinates. `single` rounds to the precision in which vertex buffers are stored. -/
class Scalar (α : Type) extends Zero α, One α, Add α, Sub α, Mul α, Div α, Neg α, BEq α, LT α, LE α where
  decLt (x y : α) : Decidable (x < y)
  decLe (x y : α) : Decidable (x ≤ y)
  ofInt : Int → α
  pi : α
  sqrt : α → α
  sin : α → α
  cos : α → α
  isFinite : α → Bool
  single : α → α
  cell : α → Int

namespace Scalar

variable {α : Type} [Scalar α]

instance (x y : α) : Decidable (x < y) := decLt x y
instance (x y : α) : Decidable (x ≤ y) := decLe x y

/-- The number nearest to a quotient of integers; every decimal constant is written this way. -/
def ratio (n d : Int) : α := ofInt n / ofInt d

def ofInt? (n : Int) : Option α :=
  let x : α := ofInt n
  if isFinite x then some x else none

def isUndefined (x : α) : Bool := !decide (x ≤ x)

def least (x y : α) : α :=
  if isUndefined x then x else if isUndefined y then y else if y < x then y else x

def greatest (x y : α) : α :=
  if isUndefined x then x else if isUndefined y then y else if x < y then y else x

def radians (degrees : α) : α := degrees * (pi / ofInt 180)

end Scalar

/-- The unit cell that holds a number, as a 64-bit index: the floor where that index exists, and the least index
otherwise. -/
def floatCell (x : Float) : Int :=
  let bound : Float := 9223372036854775808.0
  let below := x.floor
  if -bound ≤ below ∧ below < bound then below.toInt64.toInt else -9223372036854775808

instance : Scalar Float where
  zero := 0.0
  one := 1.0
  decLt x y := inferInstanceAs (Decidable (x < y))
  decLe x y := inferInstanceAs (Decidable (x ≤ y))
  ofInt := Float.ofInt
  pi := 3.141592653589793
  sqrt := Float.sqrt
  sin := Float.sin
  cos := Float.cos
  isFinite := Float.isFinite
  single x := x.toFloat32.toFloat
  cell := floatCell

end Arbor
