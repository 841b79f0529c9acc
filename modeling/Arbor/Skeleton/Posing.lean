import Arbor.Skeleton.Basic
import Arbor.Mesh.Chunk
import Arbor.Space.Mat4
import Arbor.Space.Quaternion

namespace Arbor

namespace Skeleton

variable {α : Type} [Scalar α]

def turns (s : Skeleton α) (angles : Option (List (Vec3 α))) : Except (Fault α) (Array (Mat3 α)) :=
  let angles := angles.getD (List.replicate s.size 0)
  if angles.length = s.size then .ok (angles.map Mat3.ofEuler).toArray else .error .shape

def localPlacement (s : Skeleton α) (turns : Array (Mat3 α)) (b : Bone α) :
    Except (Fault α) (Mat4 α) := do
  return .ofParts (← atPlace turns b.index) (← s.localTranslation b.index)

def placeBone (s : Skeleton α) (turns : Array (Mat3 α)) (world : Array (Mat4 α)) (b : Bone α) :
    Except (Fault α) (Array (Mat4 α)) := do
  let placement ← s.localPlacement turns b
  let placed ← if b.isRoot then pure placement else do
    pure ((← atPlace world b.parent) * placement)
  match place? world.size b.index with
  | some i => return world.setIfInBounds i placed
  | none => throw .outOfRange

def world (s : Skeleton α) (angles : Option (List (Vec3 α))) : Except (Fault α) (Array (Mat4 α)) := do
  let turns ← s.turns angles
  s.bones.toList.foldlM (s.placeBone turns) (Array.replicate s.size Mat4.zero)

def skinning (s : Skeleton α) (angles : Option (List (Vec3 α))) : Except (Fault α) (Array (Mat4 α)) := do
  let world ← s.world angles
  return ((world.toList.zip s.heads).map fun (m, head) => m * Mat4.translation (-head)).toArray

/-- The vertices of a mesh, each moved by the matrix of its bone. There has to be one bone for each of them. -/
def moved (matrices : Array (Mat4 α)) (owners : Column α) (positions : List (Vec3 α)) :
    Except (Fault α) (List (Vec3 α)) := do
  if owners.itemShape.isEmpty then
    let perVertex ← owners.wholes.mapM (atPlace matrices)
    return (← sideBySide perVertex positions).map fun (m, p) => m.apply p
  else
    let _ ← (owners.items.flatMap Item.wholes).mapM (atPlace matrices)
    throw .shape

def weighted (weights : Column α) (points : List (Vec3 α)) : Except (Fault α) (List (Vec3 α)) := do
  return (← sideBySide weights.reals points).map fun (w, p) => p.scale w

def blend (matrices : Array (Mat4 α)) (mesh : Mesh α) : Except (Fault α) (List (Vec3 α)) := do
  let owners ← mesh.column "skin_index"
  let weights ← mesh.column "skin_weight"
  let posed ← moved matrices owners mesh.positions
  weighted weights posed

def skin (s : Skeleton α) (mesh : Mesh α) (angles : Option (List (Vec3 α))) :
    Except (Fault α) (List (Vec3 α)) := do
  blend (← s.skinning angles) mesh

end Skeleton

end Arbor
