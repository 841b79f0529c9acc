import Arbor.Mesh.Assembler
import Arbor.Turtle.Walk

namespace Arbor

/-- A tree is one rigid mesh, or a mesh that follows bones. -/
inductive Mode where
  | static
  | skinned
  deriving DecidableEq, Repr

namespace Mode

def name : Mode → String
  | static => "static"
  | skinned => "skinned"

def ofName? (name : Text) : Option Mode :=
  if name = static.name then some static else if name = skinned.name then some skinned else none

theorem ofName?_name (m : Mode) : ofName? m.name = some m := by cases m <;> simp [ofName?, name]

def ofName {α : Type} (name : Text) : Except (Fault α) Mode :=
  match ofName? name with
  | some mode => .ok mode
  | none => .error .noSuchMode

end Mode

structure TreeParams (α : Type) where
  startRadius : α
  radiusReduction : α
  branchLength : α
  angle : α
  mode : Mode
  position : List α
  radialSegments : Int
  leafRadius : α
  leafSegments : Int
  deriving Repr

namespace TreeParams

variable {α : Type} [Scalar α]

def standard : TreeParams α :=
  { startRadius := 1
    radiusReduction := Scalar.ratio 8 10
    branchLength := 1
    angle := Scalar.ofInt 10
    mode := .static
    position := [0, 0, 0]
    radialSegments := 8
    leafRadius := Scalar.ratio 3 10
    leafSegments := 8 }

def requireFinite (name : String) (x : α) : Except (Fault α) Unit :=
  if Scalar.isFinite x then .ok () else .error (.notFinite name x)

def requirePositive (name : String) (x : α) : Except (Fault α) Unit :=
  if 0 < x then .ok () else .error (.notPositive name x)

def requireRing (name : String) (n : Int) : Except (Fault α) Unit :=
  if n < 3 then .error (.tooFewSegments name n) else .ok ()

def place (p : TreeParams α) : Except (Fault α) (Vec3 α) :=
  match Vec3.ofList? p.position with
  | none => .error .positionLength
  | some v =>
      if p.position.all Scalar.isFinite then .ok v else .error (.positionNotFinite p.position)

def checked (p : TreeParams α) : Except (Fault α) (Vec3 α) := do
  requireFinite "start_radius" p.startRadius
  requireFinite "radius_reduction" p.radiusReduction
  requireFinite "branch_length" p.branchLength
  requireFinite "angle" p.angle
  requireFinite "leaf_radius" p.leafRadius
  let place ← p.place
  requirePositive "start_radius" p.startRadius
  if ¬ (0 < p.radiusReduction ∧ p.radiusReduction ≤ 1) then throw (.reduction p.radiusReduction)
  requirePositive "branch_length" p.branchLength
  requireRing "radial_segments" p.radialSegments
  requirePositive "leaf_radius" p.leafRadius
  requireRing "leaf_segments" p.leafSegments
  return place

def validate (p : TreeParams α) : Except (Fault α) Unit := do
  let _ ← p.checked

def gait (p : TreeParams α) (place : Vec3 α) : Gait α :=
  ⟨p.startRadius, p.radiusReduction, p.branchLength, p.angle, place⟩

def assembler (p : TreeParams α) : Assembler α := ⟨p.radialSegments, p.leafRadius, p.leafSegments⟩

end TreeParams

end Arbor
