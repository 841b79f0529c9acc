import Arbor.Command.Run

/-!
# Formats

Libraries that know the formats of meshes and pictures by the names of their files, as far as they refuse what they are
asked for. They show nothing.
-/

namespace Arbor.Command

namespace Path

def lastPiece (t : Text) : Text := (pieces t).getLast?.getD []

/-- A letter of an extension in lower case. The sign of the kelvin is a letter K. -/
def lowerLetter (c : Char) : Char := if c = '\u212a' then 'k' else c.toLower

def lower (t : Text) : Text :=
  t.map fun
    | .scalar c => .scalar (lowerLetter c)
    | p => p

def fromPoint (t : Text) : Text :=
  .scalar '.' :: (t.reverse.takeWhile (· ≠ .scalar '.')).reverse

def extension (name : Text) : Text :=
  let body := name.dropWhile (· = .scalar '.')
  if body.contains (.scalar '.') then fromPoint body else []

/-- What follows the last point of a name, the point included, unless the point comes first or last. -/
def suffix (name : Text) : Text :=
  if (name.drop 1).contains (.scalar '.') ∧ name.getLast? ≠ some (.scalar '.') then fromPoint name else []

def isForeignHome (t : Text) : Bool :=
  t.head? ≠ some (.scalar '/') &&
    match (pieces t).find? fun piece => !isIdle piece with
    | some (.scalar '~' :: user) => !user.isEmpty && user ≠ Text.ofString "root"
    | _ => false

end Path

def meshExtensions : List Text :=
  [".ply", ".vtp", ".stl", ".vtk", ".vtkhdf", ".geo", ".obj", ".iv"]

def packedExtension : Text := ".pv"

def pictureExtensions : List Text :=
  [".avif", ".eps", ".gif", ".jpeg", ".jpg", ".pdf", ".pgf", ".png", ".ps", ".raw", ".rgba", ".svg",
   ".svgz", ".tif", ".tiff", ".webp"]

def typesetExtension : Text := ".pgf"

def surfaceFile (s : Surface Float) (file : Text) : Except (Fault Float) Text := do
  if s.points.isEmpty then throw (.foreign .value "a surface without points")
  if Path.isForeignHome file then throw (.foreign .surroundings "no such user")
  Path.checkName file
  let file := Path.straight file
  let extension := Path.lower (Path.suffix (Path.lastPiece file))
  if extension = packedExtension then throw (.foreign .support "file type not supported here")
  if !meshExtensions.contains extension then throw (.foreign .value "unknown file type")
  if file.any Path.isStrayByte then throw .unencodable
  return file

def settled (l : Limits Float) : Except (Fault Float) (Limits Float) :=
  if !([l.low, l.high, Scalar.single (l.high - l.low)].all Scalar.isFinite) then
    .error (.foreign .value "limits must be finite")
  else if l.low == l.high then
    let share : Float := Scalar.ratio 5 100
    .ok ⟨l.low - share * l.low.abs, l.high + share * l.high.abs⟩
  else .ok l

def drawn (p : Preview Float) : Except (Fault Float) (Option (Vec3 (Limits Float)) × Float × Float) := do
  let limits ← p.limits.mapM fun l => do return ⟨← settled l.x, ← settled l.y, ← settled l.z⟩
  match p.elevation, p.azimuth with
  | some elevation, some azimuth => return (limits, elevation, azimuth)
  | _, _ => throw (.foreign .value "angles must be numbers")

/-- The file that a picture is written to: one without extension gets the standard one. A picture can be written from a
finite direction only. -/
def pictureFile (p : Preview Float) (file : Text) : Except (Fault Float) Text := do
  let extension := Path.extension (Path.lastPiece file)
  let format : Text := if extension.length ≤ 1 then ".png" else Path.lower extension
  if !pictureExtensions.contains format then throw (.foreign .value "unknown file type")
  let (_, elevation, azimuth) ← drawn p
  if !(Scalar.isFinite elevation && Scalar.isFinite azimuth) then throw (.foreign .value "angles must be finite")
  if format = typesetExtension then throw (.foreign .surroundings "no typesetter for the picture")
  return if extension.length ≤ 1 then (file.reverse.dropWhile (· = .scalar '.')).reverse ++ ".png" else file

namespace Library

def written (disk : Disk Content) (file : Text) : Except (Fault Float) (Disk Content) :=
  Desk.onFile file (disk.write (Path.pieces file) (.bytes ByteArray.empty))

/-- A disk behind a request. Surfaces are written by means that do not tell whether they could be, unless the name of the
file is too long. -/
def answered (disk : Disk Content) : Request → Except (Fault Float) (Disk Content)
  | .saveSurface s file => do
      match written disk (← surfaceFile s file) with
      | .error (.disk .nameTooLong path) => throw (.disk .nameTooLong path)
      | .error _ => return disk
      | .ok after => return after
  | .draw p => do
      let _ ← drawn p
      return disk
  | .savePicture p file => do written disk (← pictureFile p file)
  | _ => .ok disk

def standard : Library := fun r disk =>
  match answered disk r with
  | .ok after => (after, none)
  | .error e => (disk, some e)

end Library

end Arbor.Command
