import Arbor.Decimal.Reading
import Arbor.Text.Blank
import Arbor.Text.CodePoint

namespace Arbor.Text

def digitsAfter : List Char → List Nat × List Char
  | [] => ([], [])
  | '_' :: c :: rest =>
      match digit? c with
      | some d => (d :: (digitsAfter rest).1, (digitsAfter rest).2)
      | none => ([], '_' :: c :: rest)
  | c :: rest =>
      match digit? c with
      | some d => (d :: (digitsAfter rest).1, (digitsAfter rest).2)
      | none => ([], c :: rest)

def digitRun : List Char → List Nat × List Char
  | [] => ([], [])
  | c :: rest =>
      match digit? c with
      | some d => (d :: (digitsAfter rest).1, (digitsAfter rest).2)
      | none => ([], c :: rest)

def sign : List Char → Bool × List Char
  | '-' :: rest => (true, rest)
  | '+' :: rest => (false, rest)
  | cs => (false, cs)

def negated (negative : Bool) (n : Nat) : Int := if negative then -n else n

def integer? (cs : List Char) : Option Int :=
  let (negative, rest) := sign (trimBlanks cs)
  match digitRun rest with
  | (d :: digits, []) =>
      if Decimal.digitLimit < (d :: digits).length then none
      else some (negated negative (Decimal.ofDigits (d :: digits)))
  | _ => none

def exponent? : List Char → Option Int
  | [] => some 0
  | c :: rest =>
      if c = 'e' ∨ c = 'E' then
        let (negative, rest) := sign rest
        match digitRun rest with
        | (d :: digits, []) => some (negated negative (Decimal.ofDigits (d :: digits)))
        | _ => none
      else none

def decimal? (negative : Bool) (cs : List Char) : Option Float :=
  let (whole, rest) := digitRun cs
  let (part, rest) :=
    match rest with
    | '.' :: rest => digitRun rest
    | _ => ([], rest)
  match whole ++ part with
  | [] => none
  | digits => do
      let power ← exponent? rest
      return Decimal.nearest negative (Decimal.ofDigits digits) (power - part.length)

/-- A real number, the infinite ones and the undefined one among them. -/
def number? (cs : List Char) : Option Float :=
  let (negative, rest) := sign (trimBlanks cs)
  let word := String.ofList (rest.map Char.toLower)
  if word = "inf" ∨ word = "infinity" then some (if negative then -1.0 / 0.0 else 1.0 / 0.0)
  else if word = "nan" then some (0.0 / 0.0)
  else decimal? negative rest

end Arbor.Text
