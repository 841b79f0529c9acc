import Arbor.Mesh.Chunk
import Arbor.Text.Numeral
import Arbor.Value.Rows

/-!
# Storing numbers

How given values become the items of columns and of index buffers. A number that is stored as a whole one
loses what is behind its point, and has to fit its format then. A text is stored as the whole number that it
spells, and null as the undefined number.
-/

namespace Arbor

def truncated {α : Type} [Scalar α] (x : α) : Int := if x < 0 then -Scalar.cell (-x) else Scalar.cell x

namespace Format

def bounds? : Format → Option (Int × Int)
  | single | double => none
  | signed => some (-Int.pow 2 31, Int.pow 2 31 - 1)
  | unsigned => some (0, Int.pow 2 32 - 1)

/-- A number that has the low 32 bits of another one and fits a range. -/
def wrapped (least n : Int) : Int := (n - least) % Int.pow 2 32 + least

variable {α : Type} [Scalar α]

def stored (f : Format) (x : α) : α :=
  match f with
  | single => Scalar.single x
  | _ => x

def storeWhole (f : Format) (n : Int) : Except (Fault α) (Item α) :=
  match f.bounds? with
  | some (least, greatest) => if least ≤ n ∧ n ≤ greatest then .ok (.whole n) else .error .notStorable
  | none =>
      match Scalar.ofInt? n with
      | some x => .ok (.real (f.stored x))
      | none => .error .tooLarge

/-- A real number as an item. One that is stored as a whole one has to be defined. -/
def storeReal (f : Format) (x : α) : Except (Fault α) (Item α) :=
  if f.bounds?.isNone then .ok (.real (f.stored x))
  else if Scalar.isUndefined x then .error .shape
  else f.storeWhole (truncated x)

def storeText (f : Format) (t : Text) : Except (Fault α) (Item α) :=
  match t.chars?.bind Text.integer? with
  | some n => f.storeWhole n
  | none => .error .shape

def store (f : Format) : Value α → Except (Fault α) (Item α)
  | .int n => f.storeWhole n
  | .bool b => f.storeWhole (if b then 1 else 0)
  | .real x => f.storeReal x
  | .text t => f.storeText t
  | .null => if f.bounds?.isNone then .ok (.real (0 / 0)) else .error .unfit
  | .list _ => .error .shape
  | .object _ => .error .unfit

/-- A given value as the item of every vertex. A real number is never refused: one that is stored as a whole
one and is out of reach leaves the least number of 32 bits with a sign, and its low bits without. -/
def fill (f : Format) (v : Value α) : Except (Fault α) (Item α) :=
  match f, v with
  | .signed, .real x =>
      let n := truncated x
      .ok (.whole (if -Int.pow 2 31 ≤ n ∧ n < Int.pow 2 31 then n else -Int.pow 2 31))
  | .unsigned, .real x => .ok (.whole (wrapped 0 (truncated x)))
  | f, v => f.store v

def item (f : Format) : Value α → Except (Fault α) (Item α)
  | .list vs => do return .row (← items f vs)
  | v => f.store v
where
  items (f : Format) : List (Value α) → Except (Fault α) (List (Item α))
    | [] => .ok []
    | v :: rest => do return (← item f v) :: (← items f rest)

def real (f : Format) (v : Value α) : Except (Fault α) α := do
  match ← f.store v with
  | .real x => return x
  | _ => throw .shape

end Format

namespace Column

variable {α : Type} [Scalar α]

def ofWholes (f : Format) (ns : List Int) : Except (Fault α) (Column α) := do
  return ⟨.stored f, [], ← ns.mapM f.storeWhole⟩

def filled (f : Format) (count : Nat) (v : Value α) : Except (Fault α) (Column α) :=
  match count, v with
  | 0, .real _ | 0, .text _ | 0, .null | 0, .object _ => .ok ⟨.stored f, [], []⟩
  | count, v => do return ⟨.stored f, [], List.replicate count (← f.fill v)⟩

def ofValue (f : Format) (count : Nat) (v : Value α) : Except (Fault α) (Column α) :=
  match v with
  | .list vs =>
      match v.grid? with
      | some lengths => do return ⟨.stored f, lengths.drop 1, ← Format.item.items f vs⟩
      | none => .error .shape
  | v => filled f count v

end Column

namespace Value

variable {α : Type} [Scalar α]

def toVectors (f : Format) (v : Value α) : Except (Fault α) (List (Vec3 α)) := do
  return (← v.toRows f.real).map fun (x, y, z) => ⟨x, y, z⟩

def toIndex (v : Value α) : Except (Fault α) UInt32 := do
  match ← Format.unsigned.store v with
  | .whole n => return UInt32.ofNat n.toNat
  | _ => throw .shape

def toTriangles (v : Value α) : Except (Fault α) (List (Triangle UInt32)) := do
  return (← v.toRows toIndex).map fun (a, b, c) => ⟨a, b, c⟩

end Value

end Arbor
