import Arbor.Mesh.Chunk
import Arbor.Place

/-!
# Spheres

A sphere as a grid of rows from the upper pole to the lower and of columns around the axis. The last
column lies on the first, and each pole is a whole row.
-/

namespace Arbor

structure Ball (α : Type) where
  center : Vec3 α
  radius : α
  deriving Repr

namespace Ball

variable {α : Type}

def cell (segments rings r s : Nat) : List (Triangle Nat) :=
  let here := r * (segments + 1) + s
  let below := here + (segments + 1)
  (if r = 0 then [] else [⟨here, here + 1, below⟩]) ++
    (if r + 1 = rings then [] else [⟨here + 1, below + 1, below⟩])

def faces (segments rings : Nat) : List (Triangle Nat) :=
  (List.range rings).flatMap fun r => (List.range segments).flatMap fun s => cell segments rings r s

/-- The numbers that binary64 rounds to the first one that no signed word of 64 bits holds. -/
def isFirstBeyond (n : Int) : Bool := Int.pow 2 63 - 512 ≤ n && n ≤ Int.pow 2 63 + 1024

/-- How many marks a scale has. The first number beyond a word counts as no marks at all, and then there is
none for the end of the scale. -/
def markCount (n : Int) : Except (Fault α) Nat :=
  if isFirstBeyond n then .error .outOfRange else steppedLengthOf n

variable [Scalar α]

def mark (total : α) (n k : Nat) : α :=
  if k = 0 then 0 else if k = n then total else Scalar.ofInt k * (total / Scalar.ofInt n)

def direction (segments rings r s : Nat) : Vec3 α :=
  let phi := mark Scalar.pi rings r
  let theta := mark (Scalar.ofInt 2 * Scalar.pi) segments s
  ⟨Scalar.sin phi * Scalar.cos theta, Scalar.cos phi, Scalar.sin phi * Scalar.sin theta⟩

def directions (rows columns : Nat) : List (Vec3 α) :=
  (List.range rows).flatMap fun r =>
    (List.range columns).map fun s => direction (columns - 1) (rows - 1) r s

def place (b : Ball α) (v : Vec3 α) : Vec3 α := b.center + v.scale b.radius

/-- The ball over `segments` columns and `rings` rows of cells. There is room for as many vertices as 32-bit
indices can tell apart. -/
def chunk (b : Ball α) (segments rings : Int) : Except (Fault α) (Chunk α) := do
  let rows ← markCount (rings + 1)
  let columns ← markCount (segments + 1)
  let _ ← lengthBelow (roomLimit + 1) (rows * columns : Int)
  let vs : List (Vec3 α) := directions rows columns
  return {
    positions := vs.map fun v => (b.place v).single
    normals := vs.map Vec3.single
    faces := .ofPrimitive (faces segments.toNat rings.toNat)
    attributes := [] }

end Ball

end Arbor
