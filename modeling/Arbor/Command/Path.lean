import Arbor.Fault

namespace Arbor.Command

/-- The names from the root down to a file or folder; none for the root itself. -/
abbrev Path := List Text

namespace Path

def cutAt (piece : Text) : Text → List Text
  | [] => [piece.reverse]
  | .scalar '/' :: rest => piece.reverse :: cutAt [] rest
  | p :: rest => cutAt (p :: piece) rest

def pieces (t : Text) : List Text := cutAt [] t

def isIdle (piece : Text) : Bool := piece.isEmpty || piece = Text.ofString "."

def isUpward (piece : Text) : Bool := piece = Text.ofString ".."

def enter (path : Path) (piece : Text) : Path :=
  if isIdle piece then path else if isUpward piece then path.dropLast else path ++ [piece]

/-- The path that a text spells, whatever is there. -/
def ofText (t : Text) : Path := (pieces t).foldl enter []

def text (path : Path) : Text := List.intercalate [.scalar '/'] path

/-- The slashes that the name of a folder keeps in front: one, or two where there are exactly two. -/
def root (t : Text) : Text :=
  match t.takeWhile (· = .scalar '/') with
  | [] => []
  | [a, b] => [a, b]
  | a :: _ => [a]

def straight (t : Text) : Text :=
  let path := text (ofText t)
  if t.head? = some (.scalar '/') then .scalar '/' :: path else path

def folder (path : Path) : Path := path.dropLast

def join (folder name : Text) : Text :=
  if folder.getLast? = some (.scalar '/') then folder ++ name else folder ++ "/" ++ name

/-- A text that ends in an extension, which is put behind it where it is missing. -/
def withExtension (extension t : Text) : Text := if extension.isSuffixOf t then t else t ++ extension

/-- Half of a pair that stands for a byte which is part of no character. -/
def isStrayByte : CodePoint → Bool
  | .scalar _ => false
  | .surrogate place => 0x480 ≤ place.val && place.val < 0x500

def byteCount (t : Text) : Nat :=
  t.foldr (fun
    | .scalar c, rest => c.utf8Size + rest
    | .surrogate _, rest => 1 + rest) 0

def checkName {α : Type} (t : Text) : Except (Fault α) Unit :=
  if !t.all fun p => p.char?.isSome || isStrayByte p then .error .unencodable
  else if t.contains (.scalar '\x00') then .error .zeroInName
  else .ok ()

def nameLimit : Nat := 255

def textLimit : Nat := 4095

def depthLimit : Nat := 990

end Path

end Arbor.Command
