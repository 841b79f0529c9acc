import Arbor.Fault

namespace Arbor.Value

variable {α : Type}

def toNumber [Scalar α] (path : Text) : Value α → Except (Fault α) α
  | .int n =>
      match Scalar.ofInt? n with
      | some x => .ok x
      | none => .error .tooLarge
  | .real x => .ok x
  | _ => .error (.expected path .number)

def toInteger (path : Text) : Value α → Except (Fault α) Int
  | .int n => .ok n
  | _ => .error (.expected path .integer)

def toText (path : Text) : Value α → Except (Fault α) Text
  | .text t => .ok t
  | _ => .error (.expected path .text)

def toObject (path : Text) : Value α → Except (Fault α) (Table Text (Value α))
  | .object fields => .ok fields
  | _ => .error (.expected path .object)

def toTriple [Scalar α] (path : Text) : Value α → Except (Fault α) (List α)
  | .list [x, y, z] => do
      return [← x.toNumber (path ++ "[0]"), ← y.toNumber (path ++ "[1]"), ← z.toNumber (path ++ "[2]")]
  | _ => .error (.expected path .triple)

def toNumber? [Scalar α] (path : Text) : Value α → Except (Fault α) (Option α)
  | .null => .ok none
  | v => do return some (← v.toNumber path)

def entry {β : Type} (fields : Table Text (Value α)) (name : String) (standard : β)
    (read : Value α → Except (Fault α) β) : Except (Fault α) β :=
  match field? name fields with
  | some v => read v
  | none => .ok standard

end Arbor.Value
