import Arbor.Mesh.Storing
import Arbor.Skeleton.Basic

namespace Arbor

/-- Lines between points, each as its number of points followed by the points, and for each line its bone and the parent
of that. -/
structure BoneLines (α : Type) where
  points : List (Vec3 α)
  cells : List Nat
  bones : Column α
  parents : Column α

namespace BoneLines

def cell (i : Nat) : List Nat := [2, 2 * i, 2 * i + 1]

def count {α : Type} (l : BoneLines α) : Nat := l.bones.items.length

end BoneLines

namespace Skeleton

variable {α : Type}

def jointed (s : Skeleton α) : List (Bone α) := s.toList.filter fun b => !b.isRoot

def lines [Scalar α] (s : Skeleton α) : Except (Fault α) (BoneLines α) := do
  return {
    points := s.jointed.flatMap fun b => [b.head, b.tail]
    cells := (List.range s.jointed.length).flatMap BoneLines.cell
    bones := ← Column.ofWholes .signed (s.jointed.map Bone.index)
    parents := ← Column.ofWholes .signed (s.jointed.map Bone.parent) }

end Skeleton

/-- A skeleton as four arrays, which is how it is stored. -/
structure SkeletonArchive (α : Type) where
  parents : Column α
  heads : List (Vec3 α)
  offsets : List (Vec3 α)
  radii : List α
  deriving Repr

def Skeleton.archive {α : Type} [Scalar α] (s : Skeleton α) : Except (Fault α) (SkeletonArchive α) := do
  return ⟨← Column.ofWholes .signed s.parents, s.heads, s.offsets, s.radii⟩

end Arbor
