import Arbor.Place
import Arbor.Space.Vec3

namespace Arbor

/-- A joint. Its head lies where its segment begins, and `offset` leads from there to the tip. -/
structure Bone (α : Type) where
  index : Int
  parent : Int
  head : Vec3 α
  offset : Vec3 α
  radius : α
  children : List Int
  deriving Repr

namespace Bone

variable {α : Type}

def isRoot (b : Bone α) : Bool := b.parent < 0

/-- Four digits or more, the sign among them. -/
def paddedIndex (n : Int) : String :=
  let digits := (toString n.natAbs).toList
  let width := if n < 0 then 3 else 4
  String.ofList ((if n < 0 then ['-'] else []) ++ List.replicate (width - digits.length) '0' ++ digits)

def name (b : Bone α) : String := if b.isRoot then "root" else "bone_" ++ paddedIndex b.index

def tail [Scalar α] (b : Bone α) : Vec3 α := b.head + b.offset

end Bone

structure Skeleton (α : Type) where
  bones : Array (Bone α)
  ordered : ∀ b ∈ bones.toList, b.parent < b.index

namespace Skeleton

variable {α : Type}

/-- Bones as a skeleton, unless one does not come after its parent. -/
def ofBones (bones : Array (Bone α)) : Except (Fault α) (Skeleton α) :=
  match h : bones.toList.find? fun b => decide (b.index ≤ b.parent) with
  | some b => .error (.boneOrder b.index b.parent)
  | none => .ok ⟨bones, fun b hb => by
      have := List.find?_eq_none.mp h b hb
      simp only [decide_eq_true_eq] at this
      omega⟩

def size (s : Skeleton α) : Nat := s.bones.size

def toList (s : Skeleton α) : List (Bone α) := s.bones.toList

def bone (s : Skeleton α) (i : Int) : Except (Fault α) (Bone α) := atPlace s.bones i

def parents (s : Skeleton α) : List Int := s.toList.map Bone.parent
def radii (s : Skeleton α) : List α := s.toList.map Bone.radius
def heads (s : Skeleton α) : List (Vec3 α) := s.toList.map Bone.head
def offsets (s : Skeleton α) : List (Vec3 α) := s.toList.map Bone.offset

def localTranslation [Scalar α] (s : Skeleton α) (i : Int) : Except (Fault α) (Vec3 α) := do
  let b ← s.bone i
  if b.isRoot then return b.head
  return b.head - (← s.bone b.parent).head

def below (s : Skeleton α) : Nat → Int → Except (Fault α) (List Int)
  | 0, _ => .error .boneCycle
  | depth + 1, i => do
      let b ← s.bone i
      let families ← b.children.mapM fun c => do return c :: (← below s depth c)
      return families.flatten

/-- The bones below a bone, in ascending order. No line of descent passes through a bone twice, so there are at most as
many generations as bones. -/
def descendants (s : Skeleton α) (i : Int) : Except (Fault α) (List Int) := do
  return (← s.below (s.size + 1) i).mergeSort fun a b => decide (a ≤ b)

end Skeleton

end Arbor
