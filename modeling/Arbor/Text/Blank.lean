/-!
# Blank characters

The characters that may surround a number on a command line: those that separate words (Unicode 14), but
none of the four information separators.
-/

namespace Arbor.Text

/-- First and last code point of every stretch of blank characters, in order. -/
def blanks : List (Nat × Nat) :=
  [(9, 13), (32, 32), (133, 133), (160, 160), (5760, 5760), (8192, 8202), (8232, 8233),
   (8239, 8239), (8287, 8287), (12288, 12288)]

def isBlank (c : Char) : Bool :=
  blanks.any fun stretch => stretch.1 ≤ c.toNat && c.toNat ≤ stretch.2

def trimBlanks (cs : List Char) : List Char :=
  ((cs.dropWhile isBlank).reverse.dropWhile isBlank).reverse

end Arbor.Text
