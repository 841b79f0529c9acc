import Arbor.Fault
import Arbor.Space.Vec3

namespace Arbor

/-- `noise` shifts the phase of the sway of a mesh that has no bones. -/
structure Wind (α : Type) where
  direction : List α
  strength : α
  noise : Option α
  deriving Repr

namespace Wind

variable {α : Type}

def withNoise (w : Wind α) (noise : Option α) : Wind α := { w with noise := noise }

variable [Scalar α]

def standard : Wind α := ⟨[1, 0, 0], 1, none⟩

def checked (w : Wind α) : Except (Fault α) (Vec3 α) :=
  match w.direction with
  | [x, y, z] =>
      if !([x, y, z].all Scalar.isFinite && Scalar.isFinite w.strength) then
        .error (.windNotFinite w.direction w.strength)
      else if x == 0 && z == 0 then .error (.windVertical w.direction)
      else .ok ⟨x, y, z⟩
  | _ => .error .windLength

def validate (w : Wind α) : Except (Fault α) Unit := do
  let _ ← w.checked

def axes (direction : Vec3 α) : Except (Fault α) (Vec3 α × Vec3 α) :=
  let flat : Vec3 α := ⟨direction.x, 0, direction.z⟩
  let length := flat.norm
  if length == 0 then .error (.windVertical direction.toList)
  else
    let along : Vec3 α := ⟨flat.x / length, flat.y / length, flat.z / length⟩
    .ok (along, ⟨-along.z, 0, along.x⟩)

/-- The axes of a wind that has not been checked; only its first and third components matter. -/
def horizontalAxes (w : Wind α) : Except (Fault α) (Vec3 α × Vec3 α) :=
  match w.direction with
  | x :: _ :: z :: _ =>
      match axes ⟨x, 0, z⟩ with
      | .ok pair => .ok pair
      | .error _ => .error (.windVertical w.direction)
  | _ => .error .outOfRange

end Wind

end Arbor
