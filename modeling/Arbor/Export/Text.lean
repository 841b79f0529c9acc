import Arbor.Decimal.Shortest
import Arbor.Export.Lines
import Arbor.Export.Preview
import Arbor.Export.Surface

namespace Arbor

open Decimal (shown)

def Vec3.shown (v : Vec3 Float) : String := String.intercalate " " (v.toList.map Decimal.shown)

def lined (lines : List String) : String := String.join (lines.map (· ++ "\n"))

/-- A line for every point, then a line of corners, counted from one, for every triangle. -/
def Surface.text (s : Surface Float) : String :=
  lined (s.points.map (fun p => "v " ++ p.shown) ++ corners s.cells)
where
  corners : List Nat → List String
    | 3 :: a :: b :: c :: rest => s!"f {a + 1} {b + 1} {c + 1}" :: corners rest
    | _ => []

def SkeletonArchive.text (a : SkeletonArchive Float) : String :=
  lined ((a.parents.wholes.zip (a.heads.zip (a.offsets.zip a.radii))).map fun (parent, head, offset, radius) =>
    s!"{parent} {head.shown} {offset.shown} {Decimal.shown radius}")

def framesText (frames : List (List (Vec3 Float))) : String :=
  lined (frames.flatMap fun vs => vs.map Vec3.shown ++ [""])

def Preview.text (p : Preview Float) : String :=
  let axes := (p.limits.map Vec3.toList).getD []
  let angle (a : Option Float) : String := (a.map shown).getD "-"
  lined ((labels.zip axes).map (fun (label, l) => s!"{label}: {shown l.low} {shown l.high}") ++
    [s!"{angle p.elevation} {angle p.azimuth}"])

end Arbor
