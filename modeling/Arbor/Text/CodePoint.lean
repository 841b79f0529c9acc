/-!
# Code points

What texts are made of. A text from outside may hold half of a surrogate pair without the other half,
which is no character, so texts are rows of code points and not of characters.
-/

namespace Arbor

inductive CodePoint where
  | scalar (c : Char)
  /-- Half of a pair of 16-bit units, counted from the first of them. -/
  | surrogate (place : Fin 2048)
  deriving DecidableEq, Repr

abbrev Text := List CodePoint

namespace CodePoint

def value : CodePoint → Nat
  | scalar c => c.toNat
  | surrogate place => 0xd800 + place

def char? : CodePoint → Option Char
  | scalar c => some c
  | surrogate _ => none

instance : Coe Char CodePoint := ⟨scalar⟩

def isHighHalf (n : Nat) : Bool := 0xd800 ≤ n && n < 0xdc00
def isLowHalf (n : Nat) : Bool := 0xdc00 ≤ n && n < 0xe000

def ofUnit (n : Nat) : CodePoint :=
  if h : 0xd800 ≤ n ∧ n < 0xe000 then surrogate ⟨n - 0xd800, by omega⟩ else scalar (Char.ofNat n)

def ofPair (high low : Nat) : CodePoint :=
  scalar (Char.ofNat (0x10000 + (high - 0xd800) * 0x400 + (low - 0xdc00)))

end CodePoint

namespace Text

def ofString (s : String) : Text := s.toList.map .scalar

instance : Coe String Text := ⟨ofString⟩

def chars? (t : Text) : Option (List Char) := t.mapM CodePoint.char?

/-- The text as a string, a question mark in place of every half. -/
def toDisplay (t : Text) : String := String.ofList (t.map fun p => p.char?.getD '?')

def le (a b : Text) : Bool := !decide (b.map CodePoint.value < a.map CodePoint.value)

@[simp] theorem ofString_inj {a b : String} : ofString a = ofString b ↔ a = b := by
  constructor
  · intro h
    have := congrArg (List.filterMap CodePoint.char?) h
    have : a.toList = b.toList := by
      simpa [ofString, List.filterMap_map, Function.comp_def, CodePoint.char?] using this
    exact String.toList_inj.mp this
  · rintro rfl; rfl

@[simp] theorem ofString_append (a b : String) : ofString (a ++ b) = ofString a ++ ofString b := by
  simp [ofString]

end Text

end Arbor
