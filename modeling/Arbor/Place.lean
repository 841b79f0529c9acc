import Arbor.Fault

namespace Arbor

def addressLimit : Int := Int.pow 2 60

/-- The least length for which there is no room. -/
def roomLimit : Int := Int.pow 2 32

def lengthBelow {α : Type} (limit n : Int) : Except (Fault α) Nat :=
  if n < 0 then .error .negativeCount
  else if addressLimit ≤ n then .error .shape
  else if limit ≤ n then .error .tooMany
  else .ok n.toNat

def lengthOf {α : Type} (n : Int) : Except (Fault α) Nat := lengthBelow roomLimit n

/-- The least count that is not below the limit once it has been rounded to binary64. -/
def steppedLimit : Int := addressLimit - 64

/-- A number as the length of a row of evenly spaced numbers, which is rounded to binary64 on the way. -/
def steppedLengthOf {α : Type} (n : Int) : Except (Fault α) Nat :=
  if steppedLimit ≤ n then .error .shape else lengthOf n

theorem eq_of_lengthOf {α : Type} {n : Int} {k : Nat} (h : lengthOf (α := α) n = .ok k) : (k : Int) = n := by
  unfold lengthOf lengthBelow at h
  split at h
  · simp at h
  · split at h
    · simp at h
    · split at h
      · simp at h
      · injection h with h
        omega

theorem eq_of_steppedLengthOf {α : Type} {n : Int} {k : Nat} (h : steppedLengthOf (α := α) n = .ok k) :
    (k : Int) = n := by
  unfold steppedLengthOf at h
  split at h
  · simp at h
  · exact eq_of_lengthOf h

theorem lengthBelow_of_lt {α : Type} {limit : Int} {k : Nat} (bounded : limit ≤ addressLimit) (room : (k : Int) < limit) :
    lengthBelow (α := α) limit k = .ok k := by
  have counted : ¬ (k : Int) < 0 := by omega
  have addressed : ¬ addressLimit ≤ (k : Int) := by omega
  have held : ¬ limit ≤ (k : Int) := by omega
  rw [lengthBelow, if_neg counted, if_neg addressed, if_neg held, Int.toNat_natCast]

theorem steppedLengthOf_of_lt {α : Type} {k : Nat} (room : (k : Int) < roomLimit) :
    steppedLengthOf (α := α) k = .ok k := by
  have below : roomLimit ≤ steppedLimit := by decide
  have stepped : ¬ steppedLimit ≤ (k : Int) := by omega
  rw [steppedLengthOf, if_neg stepped, lengthOf, lengthBelow_of_lt (by decide) room]

def place? (count : Nat) (i : Int) : Option Nat :=
  let j := if i < 0 then i + count else i
  if 0 ≤ j ∧ j < count then some j.toNat else none

def atPlace {α β : Type} (xs : Array β) (i : Int) : Except (Fault α) β :=
  match (place? xs.size i).bind (xs[·]?) with
  | some x => .ok x
  | none => .error .outOfRange

def sideBySide {α β γ : Type} (xs : List β) (ys : List γ) : Except (Fault α) (List (β × γ)) :=
  if xs.length = ys.length then .ok (xs.zip ys)
  else match xs, ys with
    | [x], ys => .ok (ys.map fun y => (x, y))
    | xs, [y] => .ok (xs.map fun x => (x, y))
    | _, _ => .error .shape

def combine {α β γ δ : Type} (f : β → γ → δ) (xs : List β) (ys : List γ) :
    Except (Fault α) (List δ) := do
  return (← sideBySide xs ys).map fun (x, y) => f x y

def every {β : Type} (stride : Nat) (xs : List β) : List β :=
  (xs.zipIdx.filter fun entry => entry.2 % stride = 0).map Prod.fst

theorem place?_of_lt {count i : Nat} (h : i < count) : place? count (i : Int) = some i := by
  have : ¬ (i : Int) < 0 := by omega
  simp [place?, this, h]

theorem atPlace_of_getElem? {α β : Type} {xs : Array β} {i : Nat} {x : β} (found : xs[i]? = some x) :
    atPlace (α := α) xs (i : Int) = .ok x := by
  obtain ⟨inside, -⟩ := Array.getElem?_eq_some_iff.mp found
  rw [atPlace, place?_of_lt inside, Option.bind_some, found]

theorem atPlace_congr {α β : Type} {xs ys : Array β} {i : Nat} (size : xs.size = ys.size) (same : xs[i]? = ys[i]?) :
    atPlace (α := α) xs (i : Int) = atPlace ys i := by
  rw [atPlace, atPlace, size]
  by_cases inside : i < ys.size
  · rw [place?_of_lt inside, Option.bind_some, Option.bind_some, same]
  · have outside : place? ys.size (i : Int) = none := if_neg (by omega)
    rw [outside]
    rfl

theorem sideBySide_of_length {α β γ : Type} {xs : List β} {ys : List γ} (same : xs.length = ys.length) :
    sideBySide (α := α) xs ys = .ok (xs.zip ys) := by
  unfold sideBySide
  exact if_pos same

end Arbor
