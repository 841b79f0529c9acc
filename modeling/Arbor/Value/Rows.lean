import Arbor.Fault

namespace Arbor

def triples? {β : Type} : List β → Option (List (β × β × β))
  | [] => some []
  | x :: y :: z :: rest => (triples? rest).map ((x, y, z) :: ·)
  | _ => none

namespace Value

variable {α : Type}

/-- The lengths of nested lists, the outermost first; none when lists of one level differ. -/
def shape? : Value α → Option (List Nat)
  | .list items => shapeOfList? items
  | _ => some []
where
  shapeOfList? : List (Value α) → Option (List Nat)
    | [] => some [0]
    | [item] => (shape? item).map (1 :: ·)
    | item :: rest => do
        let first ← shape? item
        match ← shapeOfList? rest with
        | count :: others => if others = first then some ((count + 1) :: first) else none
        | [] => none

def leaves : Value α → List (Value α)
  | .list items => leavesOfList items
  | v => [v]
where
  leavesOfList : List (Value α) → List (Value α)
    | [] => []
    | item :: rest => leaves item ++ leavesOfList rest

def levelLimit : Nat := 64

def grid? (v : Value α) : Option (List Nat) := v.shape?.filter fun lengths => lengths.length ≤ levelLimit

def toRows {β : Type} (v : Value α) (read : Value α → Except (Fault α) β) :
    Except (Fault α) (List (β × β × β)) := do
  if v.grid?.isNone then throw .shape
  match triples? (← v.leaves.mapM read) with
  | some rows => return rows
  | none => throw .shape

end Value

end Arbor
