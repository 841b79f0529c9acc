import Arbor.Text.Digit
import Arbor.Decimal.Binary64

namespace Arbor.Decimal

def ofDigits (digits : List Nat) : Nat := digits.foldl (fun n d => 10 * n + d) 0

/-- The digits that a whole number may have where it is read or written. -/
def digitLimit : Nat := 4300

/-- A whole number with so few digits that it can be written. -/
def isWritable (n : Int) : Bool := n.natAbs < Nat.pow 10 digitLimit

/-- The binary64 number nearest to `digits * 10 ^ exponent`: infinite from `10 ^ 310` on, and zero below `10 ^ -330`. -/
def nearest (negative : Bool) (digits : Nat) (exponent : Int) : Float :=
  let leading := exponent + (digitCount digits : Int)
  let magnitude : Float :=
    if digits = 0 ∨ leading < -330 then 0.0
    else if 310 < leading then 1.0 / 0.0
    else if 0 ≤ exponent then Float.ofScientific digits false exponent.toNat
    else Float.ofScientific digits true (-exponent).toNat
  if negative then -magnitude else magnitude

end Arbor.Decimal
