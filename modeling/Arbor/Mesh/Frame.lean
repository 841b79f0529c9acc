import Arbor.Mesh.Cylinder

/-!
# Frames

A frustum in a space of any number of axes. Each axis is given by a vector of the space in which the frustum
is upright, and says how far a point lies along it.
-/

namespace Arbor

/-- Axes, and the coordinates of the point where the frustum starts. A single coordinate serves all axes, and
all coordinates start from a single axis. -/
structure Frame (α : Type) where
  axes : List (Vec3 α)
  origin : List α
  deriving Repr

/-- Geometry whose vertices are rows of coordinates. -/
structure DraftChunk (α : Type) where
  positions : List (List α)
  normals : List (List α)
  faces : Faces
  deriving Repr

namespace Frame

variable {α : Type} [Scalar α]

def turn (f : Frame α) (v : Vec3 α) : List α := f.axes.map fun axis => axis.dot v

def place (f : Frame α) (p : Vec3 α) : Except (Fault α) (List α) := combine (· + ·) (f.turn p) f.origin

omit [Scalar α] in
def ofFrustum (f : Frustum α) : Frame α := ⟨f.orientation.rows, f.base.toList⟩

@[simp] theorem place_ofFrustum (f : Frustum α) (p : Vec3 α) :
    (ofFrustum f).place p = .ok (f.place p).toList := rfl

@[simp] theorem turn_ofFrustum (f : Frustum α) (v : Vec3 α) :
    (ofFrustum f).turn v = (f.orientation.apply v).toList := rfl

end Frame

def Frustum.draft {α : Type} [Scalar α] (f : Frustum α) (frame : Frame α) (count : Int) :
    Except (Fault α) (DraftChunk α) := do
  let n ← steppedLengthOf count
  let slope ← f.slope
  return {
    positions := ← (f.localPositions n).mapM fun p => do return (← frame.place p).map Scalar.single
    normals := (localNormals n slope).map fun v => (frame.turn v).map Scalar.single
    faces := .ofPrimitive (faces n) }

end Arbor
