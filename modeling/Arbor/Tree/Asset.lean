import Arbor.Grammar
import Arbor.Params
import Arbor.Skeleton.Posing
import Arbor.Skeleton.Rigging
import Arbor.Wind.BoneSway
import Arbor.Wind.VertexSway

namespace Arbor

/-- What an asset holds on to: its mesh, and a skeleton where the mesh follows bones. -/
structure Buffers (α : Type) where
  mesh : Mesh α
  skeleton : Option (Skeleton α)

structure Asset (α : Type) where
  params : TreeParams α
  symbols : Nat
  segments : Nat
  leaves : Nat
  underflows : Nat
  buffers : Option (Buffers α)

/-- How trees sway: those without bones by their vertices, those with bones by their turns. -/
structure SwaySettings (α : Type) where
  vertex : VertexSway α
  bone : BoneSway α

def SwaySettings.standard {α : Type} [Scalar α] : SwaySettings α :=
  ⟨VertexSway.standard, BoneSway.standard⟩

namespace Buffers

variable {α : Type} [Scalar α]

def ofEvents (p : TreeParams α) (place : Vec3 α) (events : List (Event α)) :
    Except (Fault α) (Buffers α) :=
  match p.mode with
  | .static => do return ⟨← p.assembler.assemble events, none⟩
  | .skinned => do
      let (mesh, skeleton) ← Rig.build p.assembler place events
      return ⟨mesh, some skeleton⟩

end Buffers

namespace Asset

variable {α : Type}

def mode (a : Asset α) : Mode := a.params.mode

def mesh? (a : Asset α) : Option (Mesh α) := a.buffers.map Buffers.mesh

def skeleton? (a : Asset α) : Option (Skeleton α) := a.buffers.bind Buffers.skeleton

def isDisposed (a : Asset α) : Bool := a.buffers.isNone

def dispose (a : Asset α) : Asset α := { a with buffers := none }

def requireMesh (a : Asset α) : Except (Fault α) (Mesh α) :=
  match a.mesh? with
  | some mesh => .ok mesh
  | none => .error .disposed

def requireSkeleton (a : Asset α) : Except (Fault α) (Skeleton α) :=
  match a.skeleton? with
  | some skeleton => .ok skeleton
  | none => .error .noSkeleton

def bone (a : Asset α) (i : Int) : Except (Fault α) (Bone α) :=
  match a.skeleton? with
  | some skeleton => skeleton.bone i
  | none => .error .noBones

@[simp] theorem mesh?_dispose (a : Asset α) : a.dispose.mesh? = none := rfl
@[simp] theorem isDisposed_dispose (a : Asset α) : a.dispose.isDisposed = true := rfl
@[simp] theorem mode_dispose (a : Asset α) : a.dispose.mode = a.mode := rfl

variable [Scalar α]

def ofWalk (p : TreeParams α) (place : Vec3 α) (symbols : Nat) (w : Walk α) :
    Except (Fault α) (Asset α) := do
  let events := w.events.toList
  return {
    params := p
    symbols := symbols
    segments := (Arbor.segments events).length
    leaves := (Arbor.leaves events).length
    underflows := w.turtle.underflows
    buffers := some (← Buffers.ofEvents p place events) }

def build (p : TreeParams α) (word : Text) : Except (Fault α) (Asset α) := do
  let place ← p.checked
  ofWalk p place word.length ((p.gait place).walk word)

def buildGrammar (p : TreeParams α) (g : Grammar) (initiator : Text) (n : Int) :
    Except (Fault α) (Asset α) := do
  p.validate
  build p (← g.generate initiator n)

def sway (a : Asset α) (time : α) (wind : Wind α) (settings : SwaySettings α) (phase : α) :
    Except (Fault α) (List (Vec3 α)) := do
  let mesh ← a.requireMesh
  wind.validate
  match a.mode with
  | .skinned => settings.bone.turns (← a.requireSkeleton).radii time wind phase
  | .static =>
      settings.vertex.offsets (← mesh.column "branch_radius").reals (← mesh.column "vertex_height").reals
        (time + phase) wind

end Asset

end Arbor
