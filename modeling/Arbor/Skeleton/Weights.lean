import Arbor.Skeleton.Posing

/-!
# Weights

Points scaled by weights. There is one weight for each point, or one for all of them. A weight may also be a row
of numbers, or rows of rows; then each of them scales all of the points.
-/

namespace Arbor

namespace Item

variable {α : Type} [Scalar α]

def ofPoint (p : Vec3 α) : Item α := .row (p.toList.map .real)

def times : Item α → Item α → Except (Fault α) (Item α)
  | .row xs, .row ys => do
      return .row (← (← sideBySide xs ys).mapM fun
        | (.real x, .real y) => pure (.real (x * y))
        | _ => throw .shape)
  | _, _ => .error .shape

def spread (points : List (Vec3 α)) : Nat → Item α → Except (Fault α) (Item α)
  | 0, .row rows => do
      return .row (← (← sideBySide rows (points.map ofPoint)).mapM fun (x, p) => times x p)
  | level + 1, .row items => do return .row (← items.mapM (spread points level))
  | _, _ => .error .shape

end Item

def commonLength? (m n : Nat) : Option Nat :=
  if m = n then some m else if m = 1 then some n else if n = 1 then some m else none

/-- Points scaled by weights. A weight that is a row of numbers, or rows of rows, scales each of the points. -/
def Column.spread {α : Type} [Scalar α] (weights : Column α) (points : List (Vec3 α)) :
    Except (Fault α) (Column α) := do
  match weights.itemShape with
  | [] => return ⟨.double, [3], (← Skeleton.weighted weights points).map Item.ofPoint⟩
  | lengths => do
      let lengths := 1 :: lengths
      let level := lengths.length - 2
      match lengths.drop level with
      | [m, n] =>
          match commonLength? m points.length, commonLength? n 3 with
          | some m, some n =>
              return ⟨.double, lengths.take level ++ [m, n],
                ← weights.items.mapM fun w => Item.spread points level (.row [w])⟩
          | _, _ => throw .shape
      | _ => throw .shape

end Arbor
