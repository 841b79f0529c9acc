import Mathlib.Algebra.Order.Ring.Nat

namespace Arbor

namespace Blocks

variable {β γ : Type}

def before (size : β → Nat) (xs : List β) (k : Nat) : Nat := ((xs.take k).map size).sum

variable {size : β → Nat} {xs : List β} {k : Nat} {x : β}

@[simp] theorem before_zero (size : β → Nat) (xs : List β) : before size xs 0 = 0 := rfl

@[simp] theorem before_cons_succ (size : β → Nat) (x : β) (xs : List β) (k : Nat) :
    before size (x :: xs) (k + 1) = size x + before size xs k := by
  simp [before]

theorem before_add_le (size : β → Nat) (found : xs[k]? = some x) : before size xs k + size x ≤ (xs.map size).sum := by
  induction xs generalizing k with
  | nil => cases found
  | cons y ys ih =>
      rw [List.map_cons, List.sum_cons]
      cases k with
      | zero =>
          cases found
          rw [before_zero]
          omega
      | succ k =>
          have bound := ih found
          rw [before_cons_succ]
          omega

theorem getElem?_flatMap {buffer : β → List γ} (sized : ∀ y ∈ xs, (buffer y).length = size y) (found : xs[k]? = some x)
    {i : Nat} (inside : i < size x) : (xs.flatMap buffer)[before size xs k + i]? = (buffer x)[i]? := by
  induction xs generalizing k with
  | nil => cases found
  | cons y ys ih =>
      have length := sized y List.mem_cons_self
      rw [List.flatMap_cons]
      cases k with
      | zero =>
          cases found
          rw [before_zero, Nat.zero_add, List.getElem?_append_left (by omega)]
      | succ k =>
          rw [before_cons_succ, List.getElem?_append_right (by omega), length, Nat.add_assoc, Nat.add_sub_cancel_left]
          exact ih (fun z member => sized z (List.mem_cons_of_mem _ member)) found

end Blocks

end Arbor
