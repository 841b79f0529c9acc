import Arbor.Fault

/-!
# Wording

A fault is seen for what it is as long as its message can be written. The only numbers that are too long for a message
are whole ones.
-/

namespace Arbor

namespace Decimal

theorem isWritable_of_lt_ten {n : Int} (small : n.natAbs < 10) : isWritable n = true := by
  have least (digits : Nat) (given : digits ≠ 0) : 10 ≤ Nat.pow 10 digits := Nat.le_self_pow given 10
  exact decide_eq_true (Nat.lt_of_lt_of_le small (least digitLimit (by decide)))

/-- The greatest number below zero that has too many digits. -/
def overlong : Int := -(Nat.pow 10 digitLimit : Nat)

theorem isWritable_overlong : isWritable overlong = false := by
  refine decide_eq_false ?_
  rw [overlong, Int.natAbs_neg, Int.natAbs_natCast]
  exact Nat.lt_irrefl _

theorem overlong_neg : overlong < 0 := by
  have positive (digits : Nat) : 0 < Nat.pow 10 digits := Nat.pow_pos (by decide)
  have own := positive digitLimit
  rw [overlong]
  omega

end Decimal

namespace Fault

variable {α : Type} {fault : Fault α}

theorem kind_of_unworded (unworded : fault.isWorded = false) : fault.kind = .value := by
  rw [kind, unworded]
  rfl

/-- A parameter is to blame. The fault says so unless one of some whole numbers has too many digits. -/
structure BlamesParameter (counts : List Int) (fault : Fault α) : Prop where
  kind : fault.kind = if fault.isWorded then .parameter else .value
  worded : fault.isWorded = true ∨ ∃ n ∈ counts, Decimal.isWritable n = false

theorem BlamesParameter.mono {counts more : List Int} (blames : BlamesParameter counts fault) (sub : counts ⊆ more) :
    BlamesParameter more fault :=
  ⟨blames.kind, blames.worded.imp_right fun ⟨n, member, long⟩ => ⟨n, sub member, long⟩⟩

theorem blamesParameter_negativeIterations (n : Int) : BlamesParameter [n] (negativeIterations n : Fault α) := by
  refine ⟨rfl, ?_⟩
  cases writable : Decimal.isWritable n with
  | true => exact .inl writable
  | false => exact .inr ⟨n, List.mem_singleton_self n, writable⟩

end Fault

end Arbor
