import Arbor.Proofs.Outcome

/-!
# Thinning

Lists out of which marked items are taken, and what does not care whether that happens before or after.
-/

namespace Arbor

section

variable {β γ δ : Type}

/-- What is left of a list when the marked items are gone. Where marks are missing, items stay. -/
def thin : List Bool → List β → List β
  | _, [] => []
  | marks, x :: xs => if marks.headD false then thin marks.tail xs else x :: thin marks.tail xs

@[simp] theorem thin_nil (marks : List Bool) : thin marks ([] : List β) = [] := rfl

theorem thin_cons_of_gone {marks : List Bool} (gone : marks.headD false = true) (x : β) (xs : List β) :
    thin marks (x :: xs) = thin marks.tail xs :=
  if_pos gone

theorem thin_cons_of_kept {marks : List Bool} (kept : ¬ marks.headD false = true) (x : β) (xs : List β) :
    thin marks (x :: xs) = x :: thin marks.tail xs :=
  if_neg kept

theorem headD_eq_true_iff {marks : List Bool} : marks.headD false = true ↔ marks[0]? = some true := by
  cases marks <;> simp

theorem thin_map (f : β → γ) (marks : List Bool) (xs : List β) : thin marks (xs.map f) = (thin marks xs).map f := by
  induction xs generalizing marks with
  | nil => rfl
  | cons x xs ih =>
      rw [List.map_cons]
      by_cases gone : marks.headD false = true
      · rw [thin_cons_of_gone gone, thin_cons_of_gone gone, ih]
      · rw [thin_cons_of_kept gone, thin_cons_of_kept gone, ih, List.map_cons]

theorem thin_zipWith (f : β → γ → δ) (marks : List Bool) (xs : List β) (ys : List γ) :
    thin marks (List.zipWith f xs ys) = List.zipWith f (thin marks xs) (thin marks ys) := by
  induction xs generalizing marks ys with
  | nil => rfl
  | cons x xs ih =>
      cases ys with
      | nil => simp
      | cons y ys =>
          rw [List.zipWith_cons_cons]
          by_cases gone : marks.headD false = true
          · rw [thin_cons_of_gone gone, thin_cons_of_gone gone, thin_cons_of_gone gone, ih]
          · rw [thin_cons_of_kept gone, thin_cons_of_kept gone, thin_cons_of_kept gone, ih, List.zipWith_cons_cons]

theorem mem_of_mem_thin {marks : List Bool} {xs : List β} {x : β} (member : x ∈ thin marks xs) : x ∈ xs := by
  induction xs generalizing marks with
  | nil => cases member
  | cons y ys ih =>
      by_cases gone : marks.headD false = true
      · rw [thin_cons_of_gone gone] at member
        exact List.mem_cons_of_mem _ (ih member)
      · rw [thin_cons_of_kept gone] at member
        rcases List.mem_cons.mp member with rfl | later
        · exact List.mem_cons_self
        · exact List.mem_cons_of_mem _ (ih later)

theorem mapM_thin {ε : Type} {f : β → Except ε γ} {xs : List β} {ys : List γ} (run : xs.mapM f = .ok ys)
    (marks : List Bool) : (thin marks xs).mapM f = .ok (thin marks ys) := by
  induction xs generalizing ys marks with
  | nil =>
      cases run
      rfl
  | cons x xs ih =>
      rw [List.mapM_cons] at run
      obtain ⟨y, first, rest⟩ := Outcome.bind_eq_ok run
      obtain ⟨later, behind, same⟩ := Outcome.bind_eq_ok rest
      cases same
      by_cases gone : marks.headD false = true
      · rw [thin_cons_of_gone gone, thin_cons_of_gone gone, ih behind]
      · rw [thin_cons_of_kept gone, thin_cons_of_kept gone, List.mapM_cons, first, ih behind]
        rfl

theorem filterMap_thin (f : β → Option γ) {marks : List Bool} {xs : List β}
    (unread : ∀ (i : Nat) x, marks[i]? = some true → xs[i]? = some x → f x = none) :
    (thin marks xs).filterMap f = xs.filterMap f := by
  induction xs generalizing marks with
  | nil => rfl
  | cons x xs ih =>
      have rest : (thin marks.tail xs).filterMap f = xs.filterMap f := ih fun i y mark found =>
        unread (i + 1) y (List.getElem?_tail.symm.trans mark) found
      by_cases gone : marks.headD false = true
      · rw [thin_cons_of_gone gone, rest, List.filterMap_cons_none (unread 0 x (headD_eq_true_iff.mp gone) rfl)]
      · rw [thin_cons_of_kept gone, List.filterMap_cons, List.filterMap_cons, rest]

theorem thin_of_unmarked {marks : List Bool} (unmarked : ∀ i : Nat, marks[i]? ≠ some true) (xs : List β) :
    thin marks xs = xs := by
  have whole : (thin marks xs).filterMap some = xs.filterMap some :=
    filterMap_thin some fun i _ mark _ => absurd mark (unmarked i)
  rwa [List.filterMap_some, List.filterMap_some] at whole

end

end Arbor
