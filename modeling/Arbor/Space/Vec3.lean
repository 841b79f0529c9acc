import Arbor.Scalar

namespace Arbor

structure Vec3 (α : Type) where
  x : α
  y : α
  z : α
  deriving DecidableEq, Repr

namespace Vec3

variable {α β : Type}

def map (f : α → β) (v : Vec3 α) : Vec3 β := ⟨f v.x, f v.y, f v.z⟩

def toList (v : Vec3 α) : List α := [v.x, v.y, v.z]

def ofList? : List α → Option (Vec3 α)
  | [x, y, z] => some ⟨x, y, z⟩
  | _ => none

def spread? : List α → Option (Vec3 α)
  | [x, y, z] => some ⟨x, y, z⟩
  | [x] => some ⟨x, x, x⟩
  | _ => none

theorem ofList?_toList (v : Vec3 α) : ofList? v.toList = some v := rfl

variable [Scalar α]

instance : Zero (Vec3 α) := ⟨⟨0, 0, 0⟩⟩
instance : Add (Vec3 α) := ⟨fun a b => ⟨a.x + b.x, a.y + b.y, a.z + b.z⟩⟩
instance : Sub (Vec3 α) := ⟨fun a b => ⟨a.x - b.x, a.y - b.y, a.z - b.z⟩⟩
instance : Neg (Vec3 α) := ⟨fun a => ⟨-a.x, -a.y, -a.z⟩⟩

def scale (k : α) (v : Vec3 α) : Vec3 α := ⟨k * v.x, k * v.y, k * v.z⟩

def dot (a b : Vec3 α) : α := a.x * b.x + a.y * b.y + a.z * b.z

def norm (v : Vec3 α) : α := Scalar.sqrt (v.dot v)

def single (v : Vec3 α) : Vec3 α := v.map Scalar.single

/-- The axis along which a turtle grows. -/
def up : Vec3 α := ⟨0, 1, 0⟩

def least : List (Vec3 α) → Vec3 α
  | [] => 0
  | v :: vs => vs.foldl
      (fun a b => ⟨Scalar.least a.x b.x, Scalar.least a.y b.y, Scalar.least a.z b.z⟩) v

def greatest : List (Vec3 α) → Vec3 α
  | [] => 0
  | v :: vs => vs.foldl
      (fun a b => ⟨Scalar.greatest a.x b.x, Scalar.greatest a.y b.y, Scalar.greatest a.z b.z⟩) v

end Vec3

end Arbor
