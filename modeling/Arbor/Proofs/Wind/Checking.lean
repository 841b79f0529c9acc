import Arbor.Proofs.Outcome
import Arbor.Wind.Basic

namespace Arbor

variable {α : Type} [Scalar α]

def Vec3.flat (v : Vec3 α) : Vec3 α := ⟨v.x, 0, v.z⟩

namespace Wind

structure Usable (w : Wind α) : Prop where
  finite : ∀ x ∈ w.strength :: w.direction, Scalar.isFinite x = true
  horizontal : ∃ x y z, w.direction = [x, y, z] ∧ ¬ ((x == 0) = true ∧ (z == 0) = true)

theorem checked_eq_ok {w : Wind α} {v : Vec3 α} : w.checked = .ok v ↔ w.direction = v.toList ∧ w.Usable := by
  obtain ⟨direction, strength, noise⟩ := w
  constructor
  · intro run
    rw [checked] at run
    split at run
    · rename_i x y z three
      dsimp only at three
      subst three
      split at run
      · cases run
      · rename_i finite
        split at run
        · cases run
        · rename_i level
          cases run
          simp only [Bool.not_eq_true', Bool.not_eq_false, Bool.and_eq_true, List.all_eq_true] at finite level
          exact ⟨rfl, List.forall_mem_cons.mpr ⟨finite.2, finite.1⟩, x, y, z, rfl, level⟩
    · cases run
  · rintro ⟨three, usable⟩
    obtain ⟨x, y, z⟩ := v
    obtain ⟨finite, a, b, c, same, level⟩ := usable
    dsimp only at three same finite
    subst three
    cases same
    have fine := List.forall_mem_cons.mp finite
    have whole : ([x, y, z].all Scalar.isFinite && Scalar.isFinite strength) = true := by
      rw [Bool.and_eq_true, List.all_eq_true]
      exact ⟨fine.2, fine.1⟩
    simp only [checked, Vec3.toList, whole, Bool.not_true, Bool.false_eq_true, if_false, Bool.and_eq_true, if_neg level]

theorem exists_checked {w : Wind α} (usable : w.Usable) : ∃ v, w.checked = .ok v := by
  obtain ⟨x, y, z, three, -⟩ := usable.horizontal
  exact ⟨⟨x, y, z⟩, checked_eq_ok.mpr ⟨three, usable⟩⟩

theorem usable_iff {w : Wind α} : w.validate = .ok () ↔ w.Usable := by
  rw [validate]
  constructor
  · intro passed
    obtain ⟨v, checked, -⟩ := Outcome.bind_eq_ok passed
    exact (checked_eq_ok.mp checked).2
  · intro usable
    obtain ⟨v, checked⟩ := exists_checked usable
    rw [checked]
    rfl

section Axes

variable {v : Vec3 α} {w : Wind α}

def heading (v : Vec3 α) : Vec3 α := ⟨v.x / v.flat.norm, 0 / v.flat.norm, v.z / v.flat.norm⟩

def sideways (v : Vec3 α) : Vec3 α := ⟨-(heading v).z, 0, (heading v).x⟩

theorem axes_of_zero (still : (v.flat.norm == 0) = true) : axes v = .error (.windVertical v.toList) := if_pos still

theorem axes_of_ne (moving : (v.flat.norm == 0) = false) : axes v = .ok (heading v, sideways v) :=
  if_neg (Bool.eq_false_iff.mp moving)

theorem horizontalAxes_of_axes (three : w.direction = v.toList) :
    w.horizontalAxes = (axes v).mapError fun _ => .windVertical w.direction := by
  have taken : w.horizontalAxes = (axes v.flat).mapError fun _ => .windVertical w.direction := by
    rw [horizontalAxes, three, Vec3.flat]
    dsimp only [Vec3.toList]
    cases axes ⟨v.x, 0, v.z⟩ <;> rfl
  rw [taken]
  cases still : v.flat.norm == 0 with
  | true =>
      have level : (v.flat.flat.norm == 0) = true := still
      rw [axes_of_zero still, axes_of_zero level]
      rfl
  | false =>
      have level : (v.flat.flat.norm == 0) = false := still
      rw [axes_of_ne still, axes_of_ne level]
      rfl

end Axes

end Wind

end Arbor
