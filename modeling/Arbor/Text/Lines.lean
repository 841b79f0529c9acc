import Arbor.Text.CodePoint

/-!
# Lines

A text cut at its line breaks. Besides the usual ones, tabs and feeds of the vertical kind, the information
separators of files, groups and records, and the breaks of wider character sets end a line.
-/

namespace Arbor.Text

def breaks : List Nat := [10, 11, 12, 13, 28, 29, 30, 133, 8232, 8233]

def isBreak (p : CodePoint) : Bool := breaks.contains p.value

/-- The lines of a text that goes on behind `line`, which has been read in reverse. -/
def linesFrom (line : Text) : Text → List Text
  | [] => if line.isEmpty then [] else [line.reverse]
  | .scalar '\r' :: .scalar '\n' :: rest => line.reverse :: linesFrom [] rest
  | p :: rest => if isBreak p then line.reverse :: linesFrom [] rest else linesFrom (p :: line) rest

/-- The lines of a text without their breaks; behind the last break there is no further line. -/
def lines (t : Text) : List Text := linesFrom [] t

end Arbor.Text
