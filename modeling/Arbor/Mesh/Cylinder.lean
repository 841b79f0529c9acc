import Arbor.Mesh.Chunk
import Arbor.Place
import Arbor.Space.Mat3

/-!
# Cylinders

A capped frustum along the second axis of an orientation. Its vertices are the bottom ring and the top
ring of the side, then the bottom cap's ring and center, then the top cap's ring and center.
-/

namespace Arbor

structure Frustum (α : Type) where
  base : Vec3 α
  orientation : Mat3 α
  baseRadius : α
  topRadius : α
  height : α
  deriving Repr

namespace Frustum

variable {α : Type}

def faces (n : Nat) : List (Triangle Nat) :=
  let next (i : Nat) : Nat := (i + 1) % n
  let side := (List.range n).flatMap fun i => [⟨i, n + i, next i⟩, ⟨next i, n + i, n + next i⟩]
  let caps := (List.range n).flatMap fun i =>
    [⟨3 * n, 2 * n + i, 2 * n + next i⟩, ⟨4 * n + 1, 3 * n + 1 + next i, 3 * n + 1 + i⟩]
  side ++ caps

variable [Scalar α]

def column (n i : Nat) : α := Scalar.ofInt (2 * i) * Scalar.pi / Scalar.ofInt n

def ring (n : Nat) (radius height : α) : List (Vec3 α) :=
  (List.range n).map fun i =>
    let a : α := column n i
    ⟨radius * Scalar.cos a, height, radius * Scalar.sin a⟩

def slope (f : Frustum α) : Except (Fault α) α :=
  if f.height == 0 then .error .divisionByZero
  else .ok ((f.baseRadius - f.topRadius) / f.height)

/-- The normals of the side, which lean towards the narrow end, before the frustum is placed. -/
def sideNormals (n : Nat) (slope : α) : List (Vec3 α) :=
  (List.range n).map fun i =>
    let a : α := column n i
    let v : Vec3 α := ⟨Scalar.cos a, slope, Scalar.sin a⟩
    let length := v.norm
    ⟨v.x / length, v.y / length, v.z / length⟩

def localPositions (f : Frustum α) (n : Nat) : List (Vec3 α) :=
  let bottom := ring n f.baseRadius 0
  let top := ring n f.topRadius f.height
  bottom ++ top ++ (bottom ++ [⟨0, 0, 0⟩]) ++ (top ++ [⟨0, f.height, 0⟩])

def localNormals (n : Nat) (slope : α) : List (Vec3 α) :=
  let side := sideNormals n slope
  side ++ side ++ List.replicate (n + 1) ⟨0, -1, 0⟩ ++ List.replicate (n + 1) ⟨0, 1, 0⟩

def place (f : Frustum α) (p : Vec3 α) : Vec3 α := f.orientation.apply p + f.base

def chunk (f : Frustum α) (count : Int) : Except (Fault α) (Chunk α) := do
  let n ← steppedLengthOf count
  let slope ← f.slope
  return {
    positions := (f.localPositions n).map fun p => (f.place p).single
    normals := (localNormals n slope).map fun v => (f.orientation.apply v).single
    faces := .ofPrimitive (faces n)
    attributes := [] }

end Frustum

end Arbor
