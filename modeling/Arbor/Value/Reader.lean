import Arbor.Value
import Arbor.Decimal.Reading

/-!
# Reading values

Values from JSON text. Beyond the standard, the three constants that are no finite number are read as
numbers, and a name that comes twice in an object keeps its last entry. How deep values lie inside one
another is limited.
-/

namespace Arbor.Value

inductive ReadFault where
  | malformed
  | tooManyDigits
  | tooDeep
  deriving DecidableEq, Repr

def isBlank (c : Char) : Bool := c = ' ' || c = '\t' || c = '\n' || c = '\r'

def skipBlanks (cs : List Char) : List Char := cs.dropWhile isBlank

def after? (word cs : List Char) : Option (List Char) :=
  if word.isPrefixOf cs then some (cs.drop word.length) else none

def digitValue (c : Char) : Nat := c.toNat - '0'.toNat

def hexValue? (c : Char) : Option Nat :=
  if c.isDigit then some (digitValue c)
  else if 'a' ≤ c ∧ c ≤ 'f' then some (c.toNat - 'a'.toNat + 10)
  else if 'A' ≤ c ∧ c ≤ 'F' then some (c.toNat - 'A'.toNat + 10)
  else none

def unit? : List Char → Option (Nat × List Char)
  | a :: b :: c :: d :: rest => do
      let high := (← hexValue? a) * 16 + (← hexValue? b)
      let low := (← hexValue? c) * 16 + (← hexValue? d)
      return (high * 256 + low, rest)
  | _ => none

def escapedUnit? (cs : List Char) : Option (CodePoint × List Char) := do
  let (n, rest) ← unit? cs
  if CodePoint.isHighHalf n then
    match rest with
    | '\\' :: 'u' :: more =>
        match unit? more with
        | some (low, last) =>
            if CodePoint.isLowHalf low then return (CodePoint.ofPair n low, last)
            else return (CodePoint.ofUnit n, rest)
        | none => return (CodePoint.ofUnit n, rest)
    | _ => return (CodePoint.ofUnit n, rest)
  else return (CodePoint.ofUnit n, rest)

def escape? : Char → Option Char
  | '"' => some '"'
  | '\\' => some '\\'
  | '/' => some '/'
  | 'b' => some '\x08'
  | 'f' => some '\x0c'
  | 'n' => some '\n'
  | 'r' => some '\r'
  | 't' => some '\t'
  | _ => none

def points : Nat → Text → List Char → Except ReadFault (Text × List Char)
  | 0, _, _ => .error .malformed
  | fuel + 1, read, cs =>
      match cs with
      | [] => .error .malformed
      | '"' :: rest => .ok (read.reverse, rest)
      | '\\' :: 'u' :: rest =>
          match escapedUnit? rest with
          | some (p, rest) => points fuel (p :: read) rest
          | none => .error .malformed
      | '\\' :: letter :: rest =>
          match escape? letter with
          | some c => points fuel (.scalar c :: read) rest
          | none => .error .malformed
      | c :: rest =>
          if c.toNat < 0x20 ∨ c = '\\' then .error .malformed else points fuel (.scalar c :: read) rest

def string (cs : List Char) : Except ReadFault (Text × List Char) := points (cs.length + 1) [] cs

def wholeDigits (cs : List Char) : List Char × List Char :=
  match cs with
  | '0' :: rest => (['0'], rest)
  | _ => (cs.takeWhile Char.isDigit, cs.dropWhile Char.isDigit)

def fractionDigits (cs : List Char) : List Char × List Char :=
  match cs with
  | '.' :: rest =>
      match rest.takeWhile Char.isDigit with
      | [] => ([], cs)
      | digits => (digits, rest.dropWhile Char.isDigit)
  | _ => ([], cs)

def exponentSign : List Char → Bool × List Char
  | '-' :: rest => (true, rest)
  | '+' :: rest => (false, rest)
  | rest => (false, rest)

def exponent (cs : List Char) : Option Int × List Char :=
  match cs with
  | [] => (none, cs)
  | c :: rest =>
      if c = 'e' ∨ c = 'E' then
        let (negative, rest) := exponentSign rest
        match rest.takeWhile Char.isDigit with
        | [] => (none, cs)
        | digits =>
            let n : Int := Decimal.ofDigits (digits.map digitValue)
            (some (if negative then -n else n), rest.dropWhile Char.isDigit)
      else (none, cs)

def number (negative : Bool) (cs : List Char) : Except ReadFault (Value Float × List Char) :=
  let (whole, rest) := wholeDigits cs
  let (fraction, rest) := fractionDigits rest
  let (power, rest) := exponent rest
  if whole.isEmpty then .error .malformed
  else if fraction.isEmpty ∧ power.isNone then
    if Decimal.digitLimit < whole.length then .error .tooManyDigits
    else
      let n : Int := Decimal.ofDigits (whole.map digitValue)
      .ok (.int (if negative then -n else n), rest)
  else
    let digits := Decimal.ofDigits ((whole ++ fraction).map digitValue)
    .ok (.real (Decimal.nearest negative digits (power.getD 0 - fraction.length)), rest)

def constants : List (List Char × Value Float) :=
  [("null".toList, .null), ("true".toList, .bool true), ("false".toList, .bool false),
   ("NaN".toList, .real (0.0 / 0.0)), ("Infinity".toList, .real (1.0 / 0.0)),
   ("-Infinity".toList, .real (-1.0 / 0.0))]

def atom (cs : List Char) : Except ReadFault (Value Float × List Char) :=
  match constants.findSome? fun entry => (after? entry.1 cs).map fun rest => (entry.2, rest) with
  | some found => .ok found
  | none =>
      match cs with
      | '-' :: rest => number true rest
      | _ => number false cs

mutual

def value (room : Nat) : Nat → List Char → Except ReadFault (Value Float × List Char)
  | 0, _ => .error .malformed
  | fuel + 1, cs =>
      match cs, room with
      | '"' :: rest, _ => do
          let (t, rest) ← string rest
          return (.text t, rest)
      | '[' :: _, 0 => .error .tooDeep
      | '\x7b' :: _, 0 => .error .tooDeep
      | '[' :: rest, room + 1 =>
          match skipBlanks rest with
          | ']' :: rest => .ok (.list [], rest)
          | rest => do
              let (items, rest) ← items room fuel rest
              return (.list items, rest)
      | '\x7b' :: rest, room + 1 =>
          match skipBlanks rest with
          | '\x7d' :: rest => .ok (.object [], rest)
          | rest => do
              let (fields, rest) ← fields room fuel rest
              return (.object (Table.ofList fields), rest)
      | _, _ => atom cs

def items (room : Nat) : Nat → List Char → Except ReadFault (List (Value Float) × List Char)
  | 0, _ => .error .malformed
  | fuel + 1, cs => do
      let (item, rest) ← value room fuel cs
      match skipBlanks rest with
      | ']' :: rest => return ([item], rest)
      | ',' :: rest =>
          let (more, rest) ← items room fuel (skipBlanks rest)
          return (item :: more, rest)
      | _ => throw .malformed

def fields (room : Nat) : Nat → List Char → Except ReadFault (List (Text × Value Float) × List Char)
  | 0, _ => .error .malformed
  | fuel + 1, cs => do
      let '"' :: rest := cs | throw .malformed
      let (name, rest) ← string rest
      let ':' :: rest := skipBlanks rest | throw .malformed
      let (item, rest) ← value room fuel (skipBlanks rest)
      match skipBlanks rest with
      | '\x7d' :: rest => return ([(name, item)], rest)
      | ',' :: rest =>
          let (more, rest) ← fields room fuel (skipBlanks rest)
          return ((name, item) :: more, rest)
      | _ => throw .malformed

end

def depthLimit : Nat := 990

/-- A text that is one value and nothing else. Every value inside another takes up a character. -/
def ofText (room : Nat) (cs : List Char) : Except ReadFault (Value Float) := do
  let (v, rest) ← value room (cs.length + 1) (skipBlanks cs)
  if (skipBlanks rest).isEmpty then return v else throw .malformed

end Arbor.Value
