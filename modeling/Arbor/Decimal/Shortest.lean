import Arbor.Decimal.Binary64

/-!
# Shortest decimals

The fewest digits that read back as the same binary64 number, and of those decimals the nearest to it.
-/

namespace Arbor.Decimal

/-- The decimals that read back as a number: those between two bounds. The bounds themselves do when the significand is
even. -/
structure Neighbourhood where
  value : Fraction
  low : Fraction
  high : Fraction
  closed : Bool

/-- The numbers next to `significand * 2 ^ exponent` lie one unit away, but half a unit below a power of two; the bounds
lie halfway to them. -/
def Neighbourhood.of (significand : Nat) (exponent : Int) : Neighbourhood :=
  let below := if significand = Nat.pow 2 52 ∧ -1074 < exponent then 1 else 2
  { value := .scaled (4 * significand) 2 (exponent - 2)
    low := .scaled (4 * significand - below) 2 (exponent - 2)
    high := .scaled (4 * significand + 2) 2 (exponent - 2)
    closed := significand % 2 = 0 }

def Neighbourhood.contains (n : Neighbourhood) (d : Scientific) : Bool :=
  let x := d.fraction
  if n.closed then n.low.le x && x.le n.high else !x.le n.low && !n.high.le x

/-- The nearest decimal of the neighbourhood among the two around its value on a grid of `count` digits. -/
def Neighbourhood.onGrid? (n : Neighbourhood) (leading : Int) (count : Nat) : Option Scientific :=
  let exponent := leading - (count : Int) + 1
  let unit := Fraction.scaled 1 10 exponent
  let below := n.value.num * unit.den / (n.value.den * unit.num)
  let rest := n.value.num * unit.den % (n.value.den * unit.num)
  let down : Scientific := ⟨below, exponent⟩
  let up : Scientific := ⟨below + 1, exponent⟩
  match n.contains down, n.contains up with
  | true, true =>
      if 2 * rest < n.value.den * unit.num then some down
      else if 2 * rest > n.value.den * unit.num then some up
      else if below % 2 = 0 then some down else some up
  | true, false => some down
  | false, true => some up
  | false, false => none

/-- The first grid that meets the neighbourhood; seventeen digits always do. -/
def shortest (significand : Nat) (exponent : Int) : Scientific :=
  let n := Neighbourhood.of significand exponent
  let leading := n.value.leading
  let found := (List.range 17).findSome? fun k => n.onGrid? leading (k + 1)
  (found.getD ⟨0, 0⟩).reduced

/-- How the library writes a number in a message: positional from `10 ^ -4` to below `10 ^ 16`, with at least one
decimal, otherwise with a signed exponent of two digits or more. -/
def positional (d : Scientific) : Bool := -4 ≤ d.leading && d.leading < 16

def pointed (whole part : List Char) : List Char := whole ++ '.' :: part

def plain (d : Scientific) : List Char :=
  if 0 ≤ d.exponent then pointed (d.text ++ List.replicate d.exponent.toNat '0') ['0']
  else
    let places := (-d.exponent).toNat
    if d.text.length ≤ places then
      pointed ['0'] (List.replicate (places - d.text.length) '0' ++ d.text)
    else
      pointed (d.text.take (d.text.length - places)) (d.text.drop (d.text.length - places))

def mantissa (digits : List Char) : List Char :=
  match digits with
  | [] => []
  | [digit] => [digit]
  | digit :: rest => pointed [digit] rest

def signedExponent (e : Int) : List Char :=
  let digits := Nat.toDigits 10 e.natAbs
  (if e < 0 then '-' else '+') :: List.replicate (2 - digits.length) '0' ++ digits

def scientific (d : Scientific) : List Char := mantissa d.text ++ 'e' :: signedExponent d.leading

def signed (negative : Bool) (cs : List Char) : List Char := if negative then '-' :: cs else cs

def shown (x : Float) : String :=
  match Exact.ofFloat x with
  | .undefined => "nan"
  | .infinite negative => String.ofList (signed negative "inf".toList)
  | .finite negative 0 _ => String.ofList (signed negative "0.0".toList)
  | .finite negative significand exponent =>
      let d := shortest significand exponent
      String.ofList (signed negative (if positional d then plain d else scientific d))

end Arbor.Decimal
