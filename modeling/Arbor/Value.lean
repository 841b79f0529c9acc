import Arbor.Decimal.Reading
import Arbor.Table
import Arbor.Text.CodePoint

namespace Arbor

inductive Value (α : Type) where
  | null
  | bool (b : Bool)
  | int (n : Int)
  | real (x : α)
  | text (t : Text)
  | list (items : List (Value α))
  | object (fields : List (Text × Value α))
  deriving Repr

namespace Value

variable {α : Type}

def field? (name : String) (fields : Table Text (Value α)) : Option (Value α) :=
  Table.get? (Text.ofString name) fields

def shown (number : α → String) (quote : Text → String) : Value α → String
  | .null => "None"
  | .bool true => "True"
  | .bool false => "False"
  | .int n => toString n
  | .real x => number x
  | .text t => quote t
  | .list items => "[" ++ shownItems number quote items ++ "]"
  | .object fields => "\x7b" ++ shownFields number quote fields ++ "\x7d"
where
  shownItems (number : α → String) (quote : Text → String) : List (Value α) → String
    | [] => ""
    | [item] => shown number quote item
    | item :: rest => shown number quote item ++ ", " ++ shownItems number quote rest
  shownFields (number : α → String) (quote : Text → String) : List (Text × Value α) → String
    | [] => ""
    | [(name, item)] => quote name ++ ": " ++ shown number quote item
    | (name, item) :: rest =>
        quote name ++ ": " ++ shown number quote item ++ ", " ++ shownFields number quote rest

/-- A value whose text can be written. -/
def isWritable : Value α → Bool
  | .int n => Decimal.isWritable n
  | .list items => writableItems items
  | .object fields => writableFields fields
  | _ => true
where
  writableItems : List (Value α) → Bool
    | [] => true
    | item :: rest => isWritable item && writableItems rest
  writableFields : List (Text × Value α) → Bool
    | [] => true
    | (_, item) :: rest => isWritable item && writableFields rest

end Value

end Arbor
