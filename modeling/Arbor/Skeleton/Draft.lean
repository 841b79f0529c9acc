import Arbor.Place
import Arbor.Skeleton.Weights
import Arbor.Value.Rows

/-!
# Drafts

Skeletons as they are given: the head and the offset of a bone are rows of coordinates, of which there may be
any number. Three make a vector, and a single one serves all three axes. A bone that has any other number of
them can be named and looked up, but it has no place in the world.
-/

namespace Arbor

structure DraftBone (α : Type) where
  index : Int
  parent : Int
  head : List α
  offset : List α
  radius : α
  children : List Int
  deriving Repr

namespace DraftBone

variable {α : Type}

def ofBone (b : Bone α) : DraftBone α :=
  ⟨b.index, b.parent, b.head.toList, b.offset.toList, b.radius, b.children⟩

variable [Scalar α]

def toBone (b : DraftBone α) : Bone α :=
  ⟨b.index, b.parent, (Vec3.spread? b.head).getD 0, (Vec3.spread? b.offset).getD 0, b.radius, b.children⟩

@[simp] theorem toBone_ofBone (b : Bone α) : (ofBone b).toBone = b := rfl

def tail (b : DraftBone α) : Except (Fault α) (List α) := combine (· + ·) b.head b.offset

@[simp] theorem tail_ofBone (b : Bone α) : (ofBone b).tail = .ok b.tail.toList := rfl

end DraftBone

structure DraftSkeleton (α : Type) where
  drafts : List (DraftBone α)
  skeleton : Skeleton α

namespace DraftSkeleton

variable {α : Type}

def ofSkeleton (s : Skeleton α) : DraftSkeleton α := ⟨s.toList.map DraftBone.ofBone, s⟩

def withHeads (s : Skeleton α) (heads : List (List α)) : DraftSkeleton α :=
  ⟨(s.toList.zip heads).map fun (b, head) => { DraftBone.ofBone b with head }, s⟩

def size (s : DraftSkeleton α) : Nat := s.drafts.length

def bone (s : DraftSkeleton α) (i : Int) : Except (Fault α) (DraftBone α) := atPlace s.drafts.toArray i

/-- The vectors of all bones, read on from one row of coordinates to the next. The rows are of one width. -/
def vectors (rows : List (List α)) : Except (Fault α) (List (Vec3 α)) :=
  let width := (rows.head?.map List.length).getD 0
  match triples? rows.flatten with
  | some vectors =>
      if rows.all (·.length = width) then .ok (vectors.map fun (x, y, z) => ⟨x, y, z⟩) else .error .shape
  | none => .error .shape

def heads (s : DraftSkeleton α) : Except (Fault α) (List (Vec3 α)) := vectors (s.drafts.map DraftBone.head)

def offsets (s : DraftSkeleton α) : Except (Fault α) (List (Vec3 α)) :=
  vectors (s.drafts.map DraftBone.offset)

variable [Scalar α]

def ofDrafts (drafts : List (DraftBone α)) : Except (Fault α) (DraftSkeleton α) := do
  return ⟨drafts, ← Skeleton.ofBones (drafts.map DraftBone.toBone).toArray⟩

def localTranslation (s : DraftSkeleton α) (i : Int) : Except (Fault α) (List α) := do
  let b ← s.bone i
  if b.parent < 0 then return b.head
  combine (· - ·) b.head (← s.bone b.parent).head

def placeBone (s : DraftSkeleton α) (turns : Array (Mat3 α)) (world : Array (Mat4 α)) (b : Bone α) :
    Except (Fault α) (Array (Mat4 α)) := do
  let translation ← s.localTranslation b.index
  if (Vec3.spread? translation).isNone then throw .shape
  s.skeleton.placeBone turns world b

def world (s : DraftSkeleton α) (angles : Option (List (Vec3 α))) : Except (Fault α) (Array (Mat4 α)) := do
  let turns ← s.skeleton.turns angles
  s.skeleton.toList.foldlM (s.placeBone turns) (Array.replicate s.size Mat4.zero)

def skinning (s : DraftSkeleton α) (angles : Option (List (Vec3 α))) :
    Except (Fault α) (Array (Mat4 α)) := do
  let world ← s.world angles
  return ((← sideBySide world.toList (← s.heads)).map fun (m, head) =>
    m * Mat4.translation (-head)).toArray

def skin (s : DraftSkeleton α) (mesh : Mesh α) (angles : Option (List (Vec3 α))) :
    Except (Fault α) (Column α) := do
  let matrices ← s.skinning angles
  let owners ← mesh.column "skin_index"
  let weights ← mesh.column "skin_weight"
  weights.spread (← Skeleton.moved matrices owners mesh.positions)

end DraftSkeleton

end Arbor
