import Arbor.Scalar
import Mathlib

/-!
# Rounding

What binary64 arithmetic makes of an exact result, told by its size: the least power of two above it. A result that is
rounded keeps its size or gains one, as long as it is neither too small to be told from zero nor too large to be stored,
and the size of a product, a sum, a root or a quotient follows from the sizes of what it is made of.
-/

namespace Arbor.Rounding

open Float.Model UnpackedFloat

section Sizes

variable {m n : Nat} {e k : Int}

def amount (m : Nat) (e : Int) : ℚ := m * 2 ^ e

theorem amount_lt_iff (positive : 0 < m) : amount m e < 2 ^ k ↔ totalExponent m e ≤ k := by
  have unit : (0 : ℚ) < 2 ^ e := zpow_pos two_pos e
  rw [amount, ← lt_div_iff₀ unit, ← zpow_sub₀ two_ne_zero, totalExponent]
  rcases lt_or_ge (k - e) 0 with outside | inside
  · have one : (1 : ℚ) ≤ m := Nat.one_le_cast.mpr positive
    have below : (2 : ℚ) ^ (k - e) < 1 := zpow_lt_one_of_neg₀ one_lt_two outside
    exact iff_of_false (not_lt.mpr (below.le.trans one)) (by omega)
  · obtain ⟨j, same⟩ := Int.eq_ofNat_of_zero_le inside
    have whole : (m : ℚ) < 2 ^ j ↔ m < 2 ^ j := by exact_mod_cast Iff.rfl
    rw [same, zpow_natCast, whole, ← Nat.log2_lt positive.ne']
    omega

theorem le_amount_iff (positive : 0 < m) : 2 ^ k ≤ amount m e ↔ k < totalExponent m e := by
  rw [← not_lt, amount_lt_iff positive, not_le]

theorem amount_lt (positive : 0 < m) : amount m e < 2 ^ totalExponent m e := (amount_lt_iff positive).mpr le_rfl

theorem le_amount (positive : 0 < m) : 2 ^ (totalExponent m e - 1) ≤ amount m e :=
  (le_amount_iff positive).mpr (Int.sub_one_lt_of_le le_rfl)

theorem amount_pos (positive : 0 < m) : 0 < amount m e := mul_pos (Nat.cast_pos.mpr positive) (zpow_pos two_pos e)

theorem amount_mul (m n : Nat) (e f : Int) : amount (m * n) (e + f) = amount m e * amount n f := by
  rw [amount, amount, amount, Nat.cast_mul, zpow_add₀ two_ne_zero]
  ring

theorem log2_le_log2 (positive : 0 < m) (more : m ≤ n) : m.log2 ≤ n.log2 :=
  (Nat.le_log2 (by omega)).mpr ((Nat.log2_self_le positive.ne').trans more)

theorem log2_succ_le (n : Nat) : (n + 1).log2 ≤ n.log2 + 1 := by
  have below : n < 2 ^ (n.log2 + 1) := Nat.lt_log2_self
  have next : n + 1 < 2 ^ (n.log2 + 2) := by
    rw [pow_succ 2 (n.log2 + 1)]
    omega
  exact Nat.le_of_lt_succ ((Nat.log2_lt n.succ_ne_zero).mpr next)

theorem totalExponent_div {j : Nat} (left : 0 < m / 2 ^ j) :
    totalExponent (m / 2 ^ j) (e + j) = totalExponent m e := by
  have nonzero : m ≠ 0 := by
    rintro rfl
    rw [Nat.zero_div] at left
    exact left.ne rfl
  have shift (i : Nat) : i ≤ (m / 2 ^ j).log2 ↔ i + j ≤ m.log2 := by
    rw [Nat.le_log2 left.ne', Nat.le_log2 nonzero, Nat.le_div_iff_mul_le (Nat.two_pow_pos j), ← Nat.pow_add]
  have first := (shift (m / 2 ^ j).log2).mp le_rfl
  have last := (shift (m.log2 - j)).mpr (by omega)
  rw [totalExponent, totalExponent]
  omega

theorem amount_shiftLeft (m : Nat) (e : Int) (j : Nat) : amount (m <<< j) (e - j) = amount m e := by
  rw [amount, amount, Nat.shiftLeft_eq, Nat.cast_mul, zpow_sub₀ two_ne_zero, zpow_natCast]
  push_cast
  field_simp

theorem totalExponent_shiftLeft (positive : 0 < m) (j : Nat) : totalExponent (m <<< j) (e - j) = totalExponent m e := by
  have whole : m <<< j / 2 ^ j = m := by
    rw [Nat.shiftLeft_eq, Nat.mul_div_cancel _ (Nat.two_pow_pos j)]
  have left : 0 < m <<< j / 2 ^ j := by rwa [whole]
  have same := totalExponent_div (e := e - j) left
  rw [whole, Int.sub_add_cancel] at same
  exact same.symm

theorem log2_shiftLeft (positive : 0 < m) (j : Nat) : (m <<< j).log2 = m.log2 + j := by
  have same := totalExponent_shiftLeft (e := 0) positive j
  rw [totalExponent, totalExponent] at same
  omega

theorem log2_sqrt (positive : 0 < m) : m.sqrt.log2 = m.log2 / 2 := by
  have low : 2 ^ (m.log2 / 2) ≤ m.sqrt := by
    rw [Nat.le_sqrt, ← Nat.pow_add]
    exact (Nat.pow_le_pow_right two_pos (by omega)).trans (Nat.log2_self_le positive.ne')
  have high : m.sqrt < 2 ^ (m.log2 / 2 + 1) := by
    rw [Nat.sqrt_lt, ← Nat.pow_add]
    exact Nat.lt_log2_self.trans_le (Nat.pow_le_pow_right two_pos (by omega))
  exact (Nat.log2_eq_iff (Nat.sqrt_pos.mpr positive).ne').mpr ⟨low, high⟩

theorem le_log2_div (more : n.log2 < m.log2) (other : 0 < n) : m.log2 - n.log2 - 1 ≤ (m / n).log2 ∧ 0 < m / n := by
  have nonzero : m ≠ 0 := by
    rintro rfl
    exact absurd more (Nat.not_lt_zero _)
  have low : 2 ^ (m.log2 - n.log2 - 1) ≤ m / n := by
    rw [Nat.le_div_iff_mul_le other]
    calc
      2 ^ (m.log2 - n.log2 - 1) * n ≤ 2 ^ (m.log2 - n.log2 - 1) * 2 ^ (n.log2 + 1) :=
        Nat.mul_le_mul_left _ Nat.lt_log2_self.le
      _ = 2 ^ m.log2 := by
        rw [← Nat.pow_add]
        congr 1
        omega
      _ ≤ m := Nat.log2_self_le nonzero
  have left : 0 < m / n := (Nat.two_pow_pos _).trans_le low
  exact ⟨(Nat.le_log2 left.ne').mpr low, left⟩

end Sizes

section Shifts

variable {em : ExtendedMantissa} {k : Nat}

theorem shift_succ : em >>> (k + 1) = (em >>> k).shiftRightOne := rfl

theorem mantissa_shift (em : ExtendedMantissa) (k : Nat) : (em >>> k).mantissa = em.mantissa / 2 ^ k := by
  induction k with
  | zero => exact (Nat.div_one em.mantissa).symm
  | succ k ih => rw [shift_succ, ExtendedMantissa.shiftRightOne, ih, Nat.div_div_eq_div_mul, pow_succ]

theorem mantissa_le_rounded (em : ExtendedMantissa) : em.mantissa ≤ em.roundedMantissa := by
  obtain ⟨m, half, rest⟩ := em
  cases half <;> cases rest <;> simp [ExtendedMantissa.roundedMantissa, ExtendedMantissa.accuracy,
    Accuracy.roundToNearestEven]

theorem rounded_le_mantissa (em : ExtendedMantissa) : em.roundedMantissa ≤ em.mantissa + 1 := by
  obtain ⟨m, half, rest⟩ := em
  cases half <;> cases rest <;> simp [ExtendedMantissa.roundedMantissa, ExtendedMantissa.accuracy,
    Accuracy.roundToNearestEven]
  omega

theorem two_pow_le_of_rounded (up : (em >>> (k + 1)).roundedMantissa ≠ 0) : 2 ^ k ≤ em.mantissa := by
  by_contra small
  have absent : (em >>> k).mantissa = 0 := by rw [mantissa_shift, Nat.div_eq_of_lt (not_le.mp small)]
  apply up
  rw [shift_succ, ExtendedMantissa.shiftRightOne, absent]
  cases rest : (em >>> k).roundBit || (em >>> k).stickyBit <;> rfl

theorem eq_of_shift (clean : (em >>> k).roundBit = false ∧ (em >>> k).stickyBit = false) :
    em.mantissa = (em >>> k).mantissa * 2 ^ k := by
  induction k with
  | zero => exact (Nat.mul_one em.mantissa).symm
  | succ k ih =>
      obtain ⟨even, before⟩ := clean
      have earlier := ih (Bool.or_eq_false_iff.mp before)
      have half : (em >>> k).mantissa % 2 = 0 := by simpa [shift_succ, ExtendedMantissa.shiftRightOne] using even
      calc
        em.mantissa = (em >>> k).mantissa * 2 ^ k := earlier
        _ = (em >>> k).mantissa / 2 * 2 * 2 ^ k := by rw [Nat.div_mul_cancel (Nat.dvd_of_mod_eq_zero half)]
        _ = (em >>> (k + 1)).mantissa * 2 ^ (k + 1) := by
          rw [shift_succ, ExtendedMantissa.shiftRightOne, pow_succ', mul_assoc]

theorem eq_two_pow_of_rounded (half : 2 ^ k ≤ em.mantissa) (down : (em >>> (k + 1)).roundedMantissa = 0) :
    em.mantissa = 2 ^ k := by
  have last : (em >>> k).mantissa / 2 = 0 := Nat.le_zero.mp ((mantissa_le_rounded _).trans down.le)
  have positive : 0 < (em >>> k).mantissa := by
    rw [mantissa_shift]
    exact Nat.div_pos half (Nat.two_pow_pos k)
  have one : (em >>> k).mantissa = 1 := by omega
  have clean : (em >>> k).roundBit = false ∧ (em >>> k).stickyBit = false := by
    rw [shift_succ, ExtendedMantissa.shiftRightOne, one] at down
    cases round : (em >>> k).roundBit <;> cases sticky : (em >>> k).stickyBit <;>
      simp [round, sticky, ExtendedMantissa.roundedMantissa, ExtendedMantissa.accuracy,
        Accuracy.roundToNearestEven] at down ⊢
  rw [eq_of_shift clean, one, one_mul]

end Shifts

section Storing

variable {m : Nat} {e : Int}

def place (m : Nat) (e : Int) : Int := Format.binary64.targetExponent (totalExponent m e)

theorem place_eq (m : Nat) (e : Int) : place m e = max (totalExponent m e - 53) (-1074) := rfl

/-- The mantissa reaches down to the last place, or beyond it. -/
def Fine (m : Nat) (e : Int) : Prop := e ≤ place m e

/-- The mantissa reaches down to the last place and no further. -/
def Standard (m : Nat) (e : Int) : Prop := place m e = e

theorem Standard.shape (standard : Standard m e) : m.log2 ≤ 52 ∧ -1074 ≤ e ∧ (m.log2 = 52 ∨ e = -1074) := by
  rw [Standard, place_eq, totalExponent] at standard
  omega

theorem Fine.mul {n : Nat} {f : Int} (first : Standard m e) (second : Standard n f) (positive : 0 < m) (other : 0 < n) :
    Fine (m * n) (e + f) := by
  have left := log2_le_log2 positive (Nat.le_mul_of_pos_right m other)
  have right := log2_le_log2 other (Nat.le_mul_of_pos_left n positive)
  have one := first.shape
  have two := second.shape
  rw [Fine, place_eq, totalExponent]
  omega

def view (x : Float) : UnpackedFloat := x.toModel.unpack

/-- What is left of a result once it is stored. -/
def settle (u : UnpackedFloat) : UnpackedFloat := (Float.Model.pack u).unpack

theorem view_add (x y : Float) : view (x + y) = settle (add .binary64 (view x) (view y)) := rfl
theorem view_mul (x y : Float) : view (x * y) = settle (mul .binary64 (view x) (view y)) := rfl
theorem view_div (x y : Float) : view (x / y) = settle (div .binary64 (view x) (view y)) := rfl
theorem view_sqrt (x : Float) : view x.sqrt = settle (sqrt .binary64 (view x)) := rfl

theorem settle_view (x : Float) : settle (view x) = view x :=
  congrArg (unpack .binary64) (pack_unpack_of_valid x.toModel.valid)

theorem settle_infinity (s : Sign) : settle (.infinity s) = .infinity s := by cases s <;> rfl
theorem settle_zero (s : Sign) : settle (.zero s) = .zero s := by cases s <;> rfl

theorem settle_overflow {s : Sign} {positive : 0 < m} (standard : Standard m e) (large : 1024 < totalExponent m e) :
    settle (.finite s m e positive) = .infinity s := by
  have shape := standard.shape
  have beyond : 2 ^ 11 ≤ (e + 1023 + 52).toNat + 1 := by
    rw [totalExponent] at large
    omega
  have packed : UnpackedFloat.pack .binary64 (.finite s m e positive) = packedInfinity .binary64 s := if_pos beyond
  rw [settle, Float.Model.pack, Float.Model.unpack]
  exact (congrArg (unpack .binary64) packed).trans (settle_infinity s)

theorem standard_iff (positive : 0 < m) :
    Standard m e ↔ m < 2 ^ 53 ∧ -1074 ≤ e ∧ (2 ^ 52 ≤ m ∨ e = -1074) := by
  rw [← Nat.log2_lt positive.ne', ← Nat.le_log2 positive.ne', Standard, place_eq, totalExponent]
  omega

section Parts

variable {s : Sign} {place : BitVec 11} {digits : BitVec 52}

theorem toNat_one_append (digits : BitVec 52) : (1#1 ++ digits).toNat = 2 ^ 52 + digits.toNat := by
  rw [BitVec.toNat_append, ← Nat.shiftLeft_add_eq_or_of_lt digits.isLt]
  rfl

theorem unpack_normal (bounded : place ≠ -1#11) (full : place ≠ 0#11) :
    UnpackedFloat.unpack .binary64 (packComponents .binary64 s place digits) =
      .finite s (2 ^ 52 + digits.toNat) (place.toNat - 1075) (Nat.add_pos_left (Nat.two_pow_pos 52) _) := by
  rw [UnpackedFloat.unpack]
  simp only [unpackExponent_packComponents, unpackMantissa_packComponents, unpackSign_packComponents,
    Sign.ofBitVec_toBitVec, if_neg bounded, if_neg full, toNat_one_append]
  rfl

theorem unpack_subnormal (positive : 0 < digits.toNat) :
    UnpackedFloat.unpack .binary64 (packComponents .binary64 s 0#11 digits) = .finite s digits.toNat (-1074) positive := by
  have left : digits ≠ 0#52 := by
    rintro rfl
    exact positive.ne rfl
  rw [UnpackedFloat.unpack]
  simp only [unpackExponent_packComponents, unpackMantissa_packComponents, unpackSign_packComponents,
    Sign.ofBitVec_toBitVec, dif_neg left]
  rfl

end Parts

theorem settle_standard {s : Sign} {positive : 0 < m} (standard : Standard m e) (most : totalExponent m e ≤ 1024) :
    settle (.finite s m e positive) = .finite s m e positive := by
  have shape := standard.shape
  rw [totalExponent] at most
  have within : ¬ 2 ^ 11 ≤ (e + 1023 + 52).toNat + 1 := by omega
  change UnpackedFloat.unpack .binary64 (UnpackedFloat.pack .binary64 (.finite s m e positive)) = _
  by_cases normal : m.log2 + 1 = 53
  · have packed : UnpackedFloat.pack .binary64 (.finite s m e positive) =
        packComponents .binary64 s (.ofNat 11 (e + 1023 + 52).toNat) (.ofNat 52 m) :=
      (if_neg within).trans (if_pos normal)
    have place : (BitVec.ofNat 11 (e + 1023 + 52).toNat).toNat = (e + 1075).toNat := by
      rw [BitVec.toNat_ofNat]
      omega
    obtain ⟨low, high⟩ := (Nat.log2_eq_iff positive.ne').mp (Nat.succ_inj.mp normal)
    rw [packed, unpack_normal (fun top => ?_) fun bottom => ?_, finite.injEq, place, BitVec.toNat_ofNat]
    · exact ⟨rfl, by omega, by omega⟩
    · have same : (e + 1075).toNat = 2047 := place.symm.trans (congrArg BitVec.toNat top)
      omega
    · have same : (e + 1075).toNat = 0 := place.symm.trans (congrArg BitVec.toNat bottom)
      omega
  · have packed : UnpackedFloat.pack .binary64 (.finite s m e positive) =
        packComponents .binary64 s 0#11 (.ofNat 52 m) := (if_neg within).trans (if_neg normal)
    have small : m < 2 ^ 52 := (Nat.log2_lt positive.ne').mp (by omega)
    have digits : (BitVec.ofNat 52 m).toNat = m := by rw [BitVec.toNat_ofNat, Nat.mod_eq_of_lt small]
    rw [packed, unpack_subnormal (digits.symm ▸ positive), finite.injEq]
    exact ⟨rfl, digits, by omega⟩

theorem standard_view {x : Float} {s : Sign} {positive : 0 < m} (seen : view x = .finite s m e positive) :
    Standard m e ∧ totalExponent m e ≤ 1024 := by
  let bits : BitVec Format.binary64.numBits := x.toModel.toBits.toBitVec
  have digits : (unpackMantissa bits).toNat < 2 ^ 52 := (unpackMantissa bits).isLt
  have place : (unpackExponent bits).toNat < 2 ^ 11 := (unpackExponent bits).isLt
  have shape : m < 2 ^ 53 ∧ -1074 ≤ e ∧ (2 ^ 52 ≤ m ∨ e = -1074) ∧ e ≤ 971 := by
    change UnpackedFloat.unpack .binary64 bits = _ at seen
    rw [UnpackedFloat.unpack] at seen
    dsimp only at seen
    split at seen
    · split at seen <;> cases seen
    · rename_i bounded
      split at seen
      -- at the bottom of the range the leading bit is not implied
      · rename_i bottom
        split at seen
        · cases seen
        · rw [finite.injEq, bottom] at seen
          obtain ⟨-, rfl, rfl⟩ := seen
          exact ⟨by omega, by decide, .inr rfl, by decide⟩
      · rename_i full
        rw [finite.injEq, toNat_one_append] at seen
        obtain ⟨-, rfl, rfl⟩ := seen
        have below : (unpackExponent bits).toNat ≠ 2047 := fun same => bounded (BitVec.eq_of_toNat_eq same)
        have above : (unpackExponent bits).toNat ≠ 0 := fun same => full (BitVec.eq_of_toNat_eq same)
        have bias : ((Format.binary64.exponentBias : Int) + (52 : Nat)) = 1075 := rfl
        rw [bias]
        omega
  refine ⟨(standard_iff positive).mpr ⟨shape.1, shape.2.1, shape.2.2.1⟩, ?_⟩
  have few := (Nat.log2_lt positive.ne').mpr shape.1
  rw [totalExponent]
  omega

end Storing

section Rounded

variable {m : Nat} {e : Int} {a : Accuracy} {s : Sign}

theorem Fine.add_toNat (fine : Fine m e) : e + (place m e - e).toNat = place m e := by
  rw [Fine] at fine
  omega

def kept (m : Nat) (e : Int) (a : Accuracy) : Nat :=
  (ExtendedMantissa.ofMantissaAndAccuracy m a >>> (place m e - e).toNat).roundedMantissa

theorem mantissa_ofMantissaAndAccuracy (m : Nat) (a : Accuracy) :
    (ExtendedMantissa.ofMantissaAndAccuracy m a).mantissa = m := by
  cases a with
  | exact => rfl
  | inexact side => cases side <;> rfl

/-- A mantissa that ends before its last place lies below the least number, and is rounded up to it from above half of
it on. -/
theorem rounded_of_lost {em : ExtendedMantissa} {k : Nat} (positive : 0 < em.mantissa) (lost : em.mantissa < 2 ^ k)
    (last : e + k = place em.mantissa e) :
    ((em >>> k).roundedMantissa = 0 ∧ totalExponent em.mantissa e ≤ -1074 ∧
        (totalExponent em.mantissa e = -1074 → em.mantissa = 2 ^ em.mantissa.log2)) ∨
      ((em >>> k).roundedMantissa = 1 ∧ totalExponent em.mantissa e = -1074 ∧ e + k = -1074) := by
  have most := rounded_le_mantissa (em >>> k)
  rw [mantissa_shift, Nat.div_eq_of_lt lost] at most
  rw [place_eq, totalExponent] at last
  obtain ⟨j, rfl⟩ := Nat.exists_eq_add_of_lt ((Nat.log2_lt positive.ne').mpr lost)
  rw [totalExponent]
  rcases Nat.eq_zero_or_pos (em >>> (em.mantissa.log2 + j + 1)).roundedMantissa with down | up
  · refine .inl ⟨down, by omega, fun half => ?_⟩
    obtain rfl : j = 0 := by omega
    exact eq_two_pow_of_rounded (Nat.log2_self_le positive.ne') down
  · have half := (Nat.le_log2 positive.ne').mpr (two_pow_le_of_rounded up.ne')
    exact .inr ⟨by omega, by omega, by omega⟩

theorem rounded_of_left {em : ExtendedMantissa} {k : Nat} (left : 0 < em.mantissa / 2 ^ k) :
    totalExponent em.mantissa e ≤ totalExponent (em >>> k).roundedMantissa (e + k) ∧
      totalExponent (em >>> k).roundedMantissa (e + k) ≤ totalExponent em.mantissa e + 1 := by
  have least := mantissa_le_rounded (em >>> k)
  have most := rounded_le_mantissa (em >>> k)
  rw [mantissa_shift] at least most
  have low := log2_le_log2 left least
  have high := (log2_le_log2 (left.trans_le least) most).trans (log2_succ_le _)
  rw [← totalExponent_div left, totalExponent, totalExponent]
  omega

theorem kept_cases (fine : Fine m e) (positive : 0 < m) :
    (kept m e a = 0 ∧ totalExponent m e ≤ -1074 ∧ (totalExponent m e = -1074 → m = 2 ^ m.log2)) ∨
      (0 < kept m e a ∧ -1074 ≤ totalExponent m e ∧ totalExponent m e ≤ totalExponent (kept m e a) (place m e) ∧
        totalExponent (kept m e a) (place m e) ≤ totalExponent m e + 1) := by
  have last := fine.add_toNat
  have same := mantissa_ofMantissaAndAccuracy m a
  rw [kept]
  generalize ExtendedMantissa.ofMantissaAndAccuracy m a = em at same
  subst same
  generalize (place em.mantissa e - e).toNat = k at last
  rcases Nat.eq_zero_or_pos (em.mantissa / 2 ^ k) with lost | left
  · rw [Nat.div_eq_zero_iff_lt (Nat.two_pow_pos k)] at lost
    rcases rounded_of_lost positive lost last with ⟨down, small, half⟩ | ⟨up, half, bottom⟩
    · exact .inl ⟨down, small, half⟩
    · have size : totalExponent 1 (place em.mantissa e) = 1 + place em.mantissa e := rfl
      rw [up, size]
      exact .inr ⟨one_pos, by omega, by omega, by omega⟩
  · obtain ⟨grown, near⟩ := rounded_of_left (e := e) left
    have whole := totalExponent_div (e := e) left
    rw [last] at grown near whole
    have bottom : -1074 ≤ place em.mantissa e := le_max_right _ _
    rw [totalExponent] at whole
    refine .inr ⟨left.trans_le ?_, by omega, grown, near⟩
    rw [← mantissa_shift]
    exact mantissa_le_rounded (em >>> k)

theorem roundWithAccuracy_of_lost (lost : kept m e a = 0) : roundWithAccuracy .binary64 s m e a = .zero s := by
  rw [kept, place] at lost
  rw [roundWithAccuracy, shiftToTargetExponent, shiftToExponent]
  dsimp only
  rw [lost]
  refine dif_pos ?_
  rw [shiftToTargetExponent, shiftToExponent, mantissa_shift, mantissa_ofMantissaAndAccuracy, Nat.zero_div]

theorem Fine.standard_div (fine : Fine m e) (positive : 0 < m) (bottom : -1074 ≤ e) :
    ∃ j : Nat, (place m e - e).toNat = j ∧ 0 < m / 2 ^ j ∧ Standard (m / 2 ^ j) (e + j) ∧
      totalExponent (m / 2 ^ j) (e + j) = totalExponent m e := by
  have last := fine.add_toNat
  generalize (place m e - e).toNat = j at last
  have inside : j ≤ m.log2 := by
    rw [place_eq, totalExponent] at last
    omega
  have left := Nat.div_pos ((Nat.le_log2 positive.ne').mp inside) (Nat.two_pow_pos j)
  have same := totalExponent_div (e := e) left
  refine ⟨j, rfl, left, ?_, same⟩
  rw [Standard, place_eq, same, ← place_eq, last]

theorem roundWithAccuracy_of_kept (fine : Fine m e) (left : 0 < kept m e a)
    (grown : totalExponent m e ≤ totalExponent (kept m e a) (place m e)) :
    ∃ n f positive, roundWithAccuracy .binary64 s m e a = .finite s n f positive ∧ Standard n f ∧
      totalExponent n f = totalExponent (kept m e a) (place m e) := by
  have finer : Fine (kept m e a) (place m e) := max_le_max (Int.sub_le_sub_right grown 53) le_rfl
  obtain ⟨j, carry, positive, standard, size⟩ := finer.standard_div left (le_max_right _ _)
  have last := fine.add_toNat
  have carried : (ExtendedMantissa.ofMantissaAndAccuracy (kept m e a) .exact >>> j).mantissa = kept m e a / 2 ^ j :=
    mantissa_shift _ j
  have fold : (ExtendedMantissa.ofMantissaAndAccuracy m a >>> (place m e - e).toNat).roundedMantissa = kept m e a :=
    rfl
  refine ⟨_, _, positive, ?_, standard, size⟩
  rw [place] at carry
  rw [roundWithAccuracy, shiftToTargetExponent, ← place, shiftToExponent]
  simp only [last, fold, shiftToTargetExponent, shiftToExponent, carry, carried, dif_neg positive.ne']

/-- What becomes of an exact result when it is rounded and stored. -/
inductive Lands (s : Sign) (m : Nat) (e : Int) : UnpackedFloat → Prop
  | zero (small : totalExponent m e ≤ -1074) (half : totalExponent m e = -1074 → m = 2 ^ m.log2) :
      Lands s m e (.zero s)
  | finite {n : Nat} {f : Int} {positive : 0 < n} (standard : Standard n f) (least : -1074 ≤ totalExponent m e)
      (grown : totalExponent m e ≤ totalExponent n f) (near : totalExponent n f ≤ totalExponent m e + 1)
      (most : totalExponent n f ≤ 1024) : Lands s m e (.finite s n f positive)
  | infinity (large : 1024 ≤ totalExponent m e) : Lands s m e (.infinity s)

theorem lands_round (fine : Fine m e) (positive : 0 < m) : Lands s m e (settle (roundWithAccuracy .binary64 s m e a)) := by
  rcases kept_cases (a := a) fine positive with ⟨lost, small, half⟩ | ⟨left, least, grown, near⟩
  · rw [roundWithAccuracy_of_lost lost, settle_zero]
    exact .zero small half
  · obtain ⟨n, f, rest, rounded, standard, same⟩ := roundWithAccuracy_of_kept (s := s) fine left grown
    rw [← same] at grown near
    rw [rounded]
    rcases le_or_gt (totalExponent n f) 1024 with within | beyond
    · rw [settle_standard standard within]
      exact .finite standard least grown near within
    · rw [settle_overflow standard beyond]
      exact .infinity (by omega)

end Rounded

section Operations

variable {x y : Float} {s t : Sign} {m n : Nat} {e f : Int} {positive : 0 < m} {other : 0 < n}

theorem lands_mul (first : view x = .finite s m e positive) (second : view y = .finite t n f other) :
    Lands (s * t) (m * n) (e + f) (view (x * y)) := by
  rw [view_mul, first, second]
  exact lands_round (.mul (standard_view first).1 (standard_view second).1 positive other) (Nat.mul_pos positive other)

theorem lands_normalize {g : Int} (positive : 0 < m) :
    ∃ k h, 0 < k ∧ amount k h = amount m g ∧ Lands .positive k h (settle (normalize .binary64 m g .positive)) := by
  have above : compare (m : Int) 0 = .gt := Int.compare_eq_gt.mpr (Int.natCast_pos.mpr positive)
  unfold UnpackedFloat.normalize
  rw [above, Int.toNat_natCast]
  have shifted (j : Nat) : 0 < m <<< j := Nat.shiftLeft_pos_iff.mpr positive
  refine ⟨_, _, shifted _, amount_shiftLeft m g _, lands_round ?_ (shifted _)⟩
  rw [Fine, place, totalExponent_shiftLeft positive]
  omega

theorem lands_add (first : view x = .finite .positive m e positive) (second : view y = .finite .positive n f other) :
    ∃ k g, 0 < k ∧ amount k g = amount m e + amount n f ∧ Lands .positive k g (view (x + y)) := by
  -- both terms are brought down to the smaller exponent, which changes neither
  have left := amount_shiftLeft m e (e - min e f).toNat
  have right := amount_shiftLeft n f (f - min e f).toNat
  rw [show e - ((e - min e f).toNat : Int) = min e f by omega] at left
  rw [show f - ((f - min e f).toNat : Int) = min e f by omega] at right
  have most : 0 < m <<< (e - min e f).toNat + n <<< (f - min e f).toNat :=
    Nat.add_pos_left (Nat.shiftLeft_pos_iff.mpr positive) _
  obtain ⟨k, g, rest, same, lands⟩ := lands_normalize (g := min e f) most
  refine ⟨k, g, rest, ?_, ?_⟩
  · rw [same, ← left, ← right, amount, amount, amount]
    push_cast
    ring
  · rw [view_add, first, second]
    exact lands

theorem lands_sqrt (seen : view x = .finite .positive m e positive) :
    ∃ k g, 0 < k ∧ totalExponent k g = (totalExponent m e + 1) / 2 ∧ Lands .positive k g (view x.sqrt) := by
  rw [view_sqrt, seen]
  -- the root is taken of a mantissa that is long enough for all the bits that are stored
  let g := min (e.ediv 2) (Format.binary64.targetExponent ((totalExponent m e + 1).ediv 2))
  have half : g ≤ e / 2 := min_le_left _ _
  have shifted : 0 < m <<< (e - 2 * g).toNat := Nat.shiftLeft_pos_iff.mpr positive
  have root : 0 < (m <<< (e - 2 * g).toNat).sqrt := Nat.sqrt_pos.mpr shifted
  have size : totalExponent (m <<< (e - 2 * g).toNat).sqrt g = (totalExponent m e + 1) / 2 := by
    rw [totalExponent, totalExponent, log2_sqrt shifted, log2_shiftLeft positive]
    omega
  refine ⟨_, _, root, size, lands_round ?_ root⟩
  rw [Fine, place, size]
  exact min_le_right _ _

theorem lands_div (first : view x = .finite s m e positive) (second : view y = .finite t n f other)
    (least : -1073 ≤ totalExponent m e - totalExponent n f) :
    ∃ k g, 0 < k ∧ totalExponent m e - totalExponent n f ≤ totalExponent k g ∧ Lands (s / t) k g (view (x / y)) := by
  rw [view_div, first, second]
  let g := min (e - f) (Format.binary64.targetExponent (totalExponent m e - totalExponent n f))
  have whole : g ≤ e - f := min_le_left _ _
  have deep : g ≤ Format.binary64.targetExponent (totalExponent m e - totalExponent n f) := min_le_right _ _
  have deeper := deep
  change g ≤ max (totalExponent m e - totalExponent n f - 53) (-1074) at deeper
  rw [totalExponent, totalExponent] at deeper least
  have more : n.log2 < (m <<< (e - f - g).toNat).log2 := by
    rw [log2_shiftLeft positive]
    omega
  obtain ⟨low, left⟩ := le_log2_div more other
  have size : totalExponent m e - totalExponent n f ≤ totalExponent (m <<< (e - f - g).toNat / n) g := by
    rw [log2_shiftLeft positive] at low
    rw [totalExponent, totalExponent, totalExponent]
    omega
  exact ⟨_, _, left, size, lands_round (deep.trans (max_le_max (Int.sub_le_sub_right size 53) le_rfl)) left⟩

end Operations

section Floats

variable {x y : Float}

theorem beq_zero_iff : (x == 0) = true ↔ ∃ s, view x = .zero s := by
  have nought : view 0 = .zero .positive := rfl
  change (view x).beq (view 0) = true ↔ _
  rw [nought, beq_iff_ne_notANumber_and_eq]
  constructor
  · rintro ⟨-, -, same | ⟨same, -⟩ | ⟨same, -⟩⟩
    · exact ⟨_, same⟩
    · exact ⟨_, same⟩
    · exact ⟨_, same⟩
  · rintro ⟨s, same⟩
    rw [same]
    cases s <;> simp

theorem beq_zero_of_view {u : UnpackedFloat} (seen : view x = u) (nonzero : ∀ s, u ≠ .zero s) : (x == 0) = false := by
  rw [← Bool.not_eq_true, beq_zero_iff, seen]
  rintro ⟨s, zero⟩
  exact nonzero s zero

theorem add_zero_of_ne {u : UnpackedFloat} (above : u ≠ .zero .negative) : add .binary64 u (.zero .positive) = u := by
  cases u with
  | zero s =>
      cases s with
      | positive => rfl
      | negative => exact absurd rfl above
  | _ => rfl

theorem zero_add_of_ne {u : UnpackedFloat} (above : u ≠ .zero .negative) : add .binary64 (.zero .positive) u = u := by
  cases u with
  | zero s =>
      cases s with
      | positive => rfl
      | negative => exact absurd rfl above
  | _ => rfl

theorem view_add_zero (absent : view y = .zero .positive) (above : view x ≠ .zero .negative) :
    view (x + y) = view x := by
  rw [view_add, absent, add_zero_of_ne above, settle_view]

theorem view_zero_add (absent : view x = .zero .positive) (above : view y ≠ .zero .negative) :
    view (x + y) = view y := by
  rw [view_add, absent, zero_add_of_ne above, settle_view]

/-- The exact distance of a number from zero. -/
def magnitude (x : Float) : ℚ :=
  match view x with
  | .finite _ m e _ => amount m e
  | _ => 0

theorem magnitude_of_finite {s : Sign} {m : Nat} {e : Int} {positive : 0 < m} (seen : view x = .finite s m e positive) :
    magnitude x = amount m e := by rw [magnitude, seen]

theorem magnitude_of_zero {s : Sign} (seen : view x = .zero s) : magnitude x = 0 := by rw [magnitude, seen]

theorem cases_of_isFinite (finite : Scalar.isFinite x = true) :
    (∃ s, view x = .zero s) ∨ ∃ s m e positive, view x = .finite s m e positive := by
  change (view x).isFinite = true at finite
  cases seen : view x with
  | zero s => exact .inl ⟨s, rfl⟩
  | finite s m e positive => exact .inr ⟨s, m, e, positive, rfl⟩
  | infinity s =>
      rw [seen] at finite
      cases finite
  | notANumber =>
      rw [seen] at finite
      cases finite

end Floats

end Arbor.Rounding
