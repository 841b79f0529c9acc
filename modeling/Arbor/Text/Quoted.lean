import Arbor.Text.CodePoint
import Arbor.Text.Printable

namespace Arbor.Text

def hexDigits (width n : Nat) : List Char :=
  let digits := Nat.toDigits 16 n
  List.replicate (width - digits.length) '0' ++ digits

def quoteMark (t : Text) : Char :=
  if t.contains (.scalar '\'') && !t.contains (.scalar '"') then '"' else '\''

def escapedChar (mark c : Char) : List Char :=
  if c = mark ∨ c = '\\' then ['\\', c]
  else if c = '\n' then ['\\', 'n']
  else if c = '\r' then ['\\', 'r']
  else if c = '\t' then ['\\', 't']
  else if isPrintable c then [c]
  else if c.toNat < 0x100 then '\\' :: 'x' :: hexDigits 2 c.toNat
  else if c.toNat < 0x10000 then '\\' :: 'u' :: hexDigits 4 c.toNat
  else '\\' :: 'U' :: hexDigits 8 c.toNat

def escaped (mark : Char) : CodePoint → List Char
  | .scalar c => escapedChar mark c
  | .surrogate place => '\\' :: 'u' :: hexDigits 4 (CodePoint.surrogate place).value

def quotedChars (t : Text) : List Char :=
  let mark := quoteMark t
  mark :: t.flatMap (escaped mark) ++ [mark]

def quoted (t : Text) : String := String.ofList (quotedChars t)

def bracketed (opening closing : String) (items : List String) : String :=
  opening ++ String.intercalate ", " items ++ closing

def quotedList (texts : List Text) : String := bracketed "[" "]" (texts.map quoted)

def tuple : List String → String
  | [item] => "(" ++ item ++ ",)"
  | items => bracketed "(" ")" items

end Arbor.Text
