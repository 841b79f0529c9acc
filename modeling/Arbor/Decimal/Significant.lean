import Arbor.Decimal.Shortest

/-!
# Six significant digits

How measured values are reported: rounded to six digits, in scientific form without padding, and
nothing smaller than a millionth of a millionth.
-/

namespace Arbor.Decimal

/-- A quotient rounded to the nearest whole number, a half to the even one. -/
def roundDiv (num den : Nat) : Nat :=
  let below := num / den
  let twice := 2 * (num % den)
  if twice < den then below else if den < twice then below + 1 else below + below % 2

def Fraction.rounded (p : Fraction) (count : Nat) : Scientific :=
  let exponent := p.leading - (count : Int) + 1
  let unit := Fraction.scaled 1 10 exponent
  (Scientific.mk (roundDiv (p.num * unit.den) (p.den * unit.num)) exponent).reduced

def reported (d : Scientific) : List Char :=
  mantissa d.text ++ 'e' :: (toString d.leading).toList

def measured (x : Float) : String :=
  if x.abs < 1e-12 then "0"
  else match Exact.ofFloat x with
    | .undefined => "nan"
    | .infinite negative => String.ofList (signed negative "inf".toList)
    | .finite negative significand exponent =>
        let d := (Fraction.scaled significand 2 exponent).rounded 6
        String.ofList (signed negative (reported d))

end Arbor.Decimal
