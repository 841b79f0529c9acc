import Arbor.Scalar
import Arbor.Text.CodePoint

namespace Arbor

inductive Format where
  | single
  | double
  | signed
  | unsigned
  deriving DecidableEq, Repr

namespace Format

def name : Format → String
  | single => "float32"
  | double => "float64"
  | signed => "int32"
  | unsigned => "uint32"

def ofName? : String → Option Format
  | "float32" => some single
  | "float64" => some double
  | "int32" => some signed
  | "uint32" => some unsigned
  | _ => none

theorem ofName?_name (f : Format) : ofName? f.name = some f := by cases f <;> rfl

end Format

/-- What the items of a column are declared to be: numbers in one of the formats, or anything else by its name. -/
inductive Dtype where
  | stored (f : Format)
  | other (name : String)
  deriving DecidableEq, Repr

namespace Dtype

abbrev single : Dtype := stored .single
abbrev double : Dtype := stored .double
abbrev signed : Dtype := stored .signed

def name : Dtype → String
  | stored f => f.name
  | other name => name

def ofName (name : String) : Dtype := ((Format.ofName? name).map stored).getD (other name)

end Dtype

inductive Item (α : Type) where
  | real (x : α)
  | whole (n : Int)
  | row (items : List (Item α))
  deriving Repr

namespace Item

variable {α : Type}

def real? : Item α → Option α
  | real x => some x
  | _ => none

def whole? : Item α → Option Int
  | whole n => some n
  | _ => none

def wholes : Item α → List Int
  | real _ => []
  | whole n => [n]
  | row items => ofItems items
where
  ofItems : List (Item α) → List Int
    | [] => []
    | item :: rest => item.wholes ++ ofItems rest

end Item

structure Column (α : Type) where
  dtype : Dtype
  itemShape : List Nat
  items : List (Item α)
  deriving Repr

namespace Column

variable {α : Type}

def ofReals (dtype : Dtype) (xs : List α) : Column α := ⟨dtype, [], xs.map .real⟩

def constant [Scalar α] (count : Nat) (x : α) : Column α :=
  ofReals .single (List.replicate count (Scalar.single x))

def reals (c : Column α) : List α := c.items.filterMap Item.real?

def wholes (c : Column α) : List Int := c.items.filterMap Item.whole?

@[simp] theorem reals_ofReals (dtype : Dtype) (xs : List α) : (ofReals dtype xs).reals = xs := by
  induction xs with
  | nil => rfl
  | cons x xs ih => simpa [reals, ofReals, Item.real?] using ih

end Column

abbrev Schema := List (Text × Dtype)

end Arbor
