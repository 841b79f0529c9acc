import Arbor.Scalar

namespace Arbor

/-- No number above zero passes for zero. -/
def Scalar.PositiveApart (α : Type) [Scalar α] : Prop := ∀ x : α, 0 < x → (x == 0) = false

open Float.Model in
theorem compare_zero_of_above {sign : UnpackedFloat.Sign} {x : UnpackedFloat}
    (above : UnpackedFloat.compare (.zero sign) x = some .lt) : UnpackedFloat.compare x (.zero sign) = some .gt := by
  cases x with
  | notANumber => cases above
  | zero other => cases above
  | infinity other =>
      cases other with
      | positive => rfl
      | negative => cases above
  | finite other mantissa exponent left =>
      cases other with
      | positive => rfl
      | negative => cases above

theorem positiveApart_float : Scalar.PositiveApart Float := by
  intro x positive
  have zero : (0.0 : Float).toModel.unpack = .zero .positive := by rfl
  have below : (Float.Model.UnpackedFloat.compare (0.0 : Float).toModel.unpack x.toModel.unpack == some .lt) = true :=
    of_decide_eq_true positive
  have above := eq_of_beq below
  rw [zero] at above
  change (Float.Model.UnpackedFloat.compare x.toModel.unpack (0.0 : Float).toModel.unpack == some .eq) = false
  rw [zero, compare_zero_of_above above]
  rfl

end Arbor
