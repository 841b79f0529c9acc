import Arbor.Skeleton.Basic
import Arbor.Mesh.Assembler
import Arbor.Mesh.Storing

/-!
# Rigging

A mesh together with the skeleton that carries it. Every segment gets a bone below the bone of the
segment it grows from, and its vertices follow that bone; leaves follow the bone they grow on. The
first bone is a root without a segment.
-/

namespace Arbor

def skinnedSchema : Schema :=
  staticSchema ++ ([("skin_index", .signed), ("skin_weight", .single)] : Schema)

def boneOf : Option Nat → Nat
  | none => 0
  | some k => k + 1

structure Rig (α : Type) where
  bones : Array (Bone α)
  chunks : Array (Chunk α)

namespace Rig

variable {α : Type} [Scalar α]

def start (position : Vec3 α) : Rig α :=
  { bones := #[{ index := 0, parent := -1, head := position, offset := 0, radius := 0, children := [] }]
    chunks := #[] }

def tie (c : Chunk α) (bone : Nat) : Except (Fault α) (Chunk α) := do
  let owners ← Column.filled .signed c.vertexCount (.int bone)
  return (c.withAttribute "skin_index" owners).withAttribute "skin_weight" (.constant c.vertexCount 1)

def bone (s : Segment α) (index : Nat) : Bone α :=
  { index := index
    parent := boneOf s.parent
    head := s.base
    offset := s.direction
    radius := s.baseRadius
    children := [] }

def grow (r : Rig α) (s : Segment α) : Except (Fault α) (Rig α) :=
  let parent := boneOf s.parent
  let index := r.bones.size
  if parent < r.bones.size then
    let bones := r.bones.modify parent fun b => { b with children := b.children ++ [(index : Int)] }
    .ok { r with bones := bones.push (bone s index) }
  else .error .outOfRange

def step (a : Assembler α) (r : Rig α) : Event α → Except (Fault α) (Rig α)
  | .segment s => do
      let index := r.bones.size
      let grown ← r.grow s
      return { grown with chunks := grown.chunks.push (← tie (← a.segmentChunk s) index) }
  | .leaf l => do
      return { r with chunks := r.chunks.push (← tie (← a.leafChunk l) (boneOf l.segment)) }

def build (a : Assembler α) (position : Vec3 α) (events : List (Event α)) :
    Except (Fault α) (Mesh α × Skeleton α) := do
  let rig ← events.foldlM (step a) (start position)
  let mesh ← Mesh.merge rig.chunks.toList (some skinnedSchema)
  return (mesh, ← Skeleton.ofBones rig.bones)

end Rig

end Arbor
