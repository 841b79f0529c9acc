import Arbor.Proofs.Rounding
import Arbor.Proofs.Tree.Swaying

/-!
# The two guards

A wind is checked twice: by its components when it is taken in, and by its computed length when it is given axes. The
length is the root of a sum of squares, and squares leave the range of the floats long before the components do. So
a wind can pass and be refused later, when both of its squares vanish, or be given axes that are zero, when their sum
has no end; in between the guards agree.
-/

namespace Arbor

open Float.Model UnpackedFloat Rounding

/-- So small that its square passes for zero. -/
def Vanishes (x : Float) : Prop := magnitude x ^ 2 < 2 ^ (-1075 : ℤ)

section Lengths

variable {x z : Float}

theorem log2_of_square {m : Nat} (pure : m * m = 2 ^ (m * m).log2) : ∃ j, (m * m).log2 = 2 * j := by
  obtain ⟨j, -, rfl⟩ := (Nat.dvd_prime_pow Nat.prime_two).mp (Dvd.intro m pure)
  rw [← Nat.pow_add, Nat.log2_two_pow]
  exact ⟨j, (two_mul j).symm⟩

inductive Squares (x : Float) : UnpackedFloat → Prop
  | zero (vanishing : Vanishes x) : Squares x (.zero .positive)
  | finite {m : Nat} {e : Int} {positive : 0 < m} (clear : ¬ Vanishes x)
      (low : 2 ^ (totalExponent m e - 2) ≤ magnitude x ^ 2) (high : magnitude x ^ 2 < 2 ^ totalExponent m e)
      (most : totalExponent m e ≤ 1024) : Squares x (.finite .positive m e positive)
  | infinity (clear : ¬ Vanishes x) (large : 2 ^ (1023 : ℤ) ≤ magnitude x ^ 2) : Squares x (.infinity .positive)

theorem squares (finite : Scalar.isFinite x = true) : Squares x (view (x * x)) := by
  rcases cases_of_isFinite finite with ⟨s, seen⟩ | ⟨s, m, e, positive, seen⟩
  · have same : view (x * x) = .zero .positive := by
      rw [view_mul, seen]
      cases s <;> rfl
    rw [same]
    refine .zero ?_
    rw [Vanishes, magnitude_of_zero seen]
    positivity
  · have lands := lands_mul seen seen
    have both : s * s = .positive := by cases s <;> rfl
    have product : 0 < m * m := Nat.mul_pos positive positive
    have square : magnitude x ^ 2 = amount (m * m) (e + e) := by
      rw [magnitude_of_finite seen, amount_mul, sq]
    have low := le_amount (e := e + e) product
    have high := amount_lt (e := e + e) product
    have vanishes : Vanishes x ↔ totalExponent (m * m) (e + e) ≤ -1075 := by
      rw [Vanishes, square, amount_lt_iff product]
    rw [← square] at low high
    rw [both] at lands
    generalize view (x * x) = u at lands ⊢
    cases lands with
    | zero small half =>
        -- a square of exactly half the least number would have an odd exponent
        have odd : totalExponent (m * m) (e + e) ≠ -1074 := by
          intro tie
          obtain ⟨j, even⟩ := log2_of_square (half tie)
          rw [totalExponent, even] at tie
          omega
        exact .zero (vanishes.mpr (by omega))
    | finite standard least grown near most =>
        refine .finite (fun vanishing => ?_) ?_ ?_ most
        · have small := vanishes.mp vanishing
          omega
        · exact (zpow_le_zpow_right₀ one_le_two (by omega)).trans low
        · exact high.trans_le (zpow_le_zpow_right₀ one_le_two grown)
    | infinity large =>
        refine .infinity (fun vanishing => ?_) ?_
        · have small := vanishes.mp vanishing
          omega
        · exact (zpow_le_zpow_right₀ one_le_two (by omega)).trans low

inductive Totals (x z : Float) : UnpackedFloat → Prop
  | zero (vanishing : Vanishes x ∧ Vanishes z) : Totals x z (.zero .positive)
  | finite {m : Nat} {e : Int} {positive : 0 < m} (clear : ¬ (Vanishes x ∧ Vanishes z))
      (size : 2 ^ totalExponent m e ≤ 16 * (magnitude x ^ 2 + magnitude z ^ 2))
      (bounded : magnitude x ^ 2 + magnitude z ^ 2 < 2 ^ (1025 : ℤ)) (most : totalExponent m e ≤ 1024) :
      Totals x z (.finite .positive m e positive)
  | infinity (clear : ¬ (Vanishes x ∧ Vanishes z))
      (large : 2 ^ (1021 : ℤ) ≤ magnitude x ^ 2 + magnitude z ^ 2) : Totals x z (.infinity .positive)

theorem Squares.above {u : UnpackedFloat} (square : Squares x u) : u ≠ .zero .negative := by
  rintro rfl
  cases square

theorem Vanishes.bounded (vanishing : Vanishes x) : magnitude x ^ 2 < 2 ^ (1024 : ℤ) :=
  vanishing.trans_le (zpow_le_zpow_right₀ one_le_two (by decide))

theorem two_pow_add_two (k : ℤ) : (2 : ℚ) ^ (k + 2) = 4 * 2 ^ k := by
  rw [zpow_add₀ two_ne_zero, mul_comm]
  rfl

theorem two_pow_le_of_low {k : ℤ} {q : ℚ} (low : 2 ^ (k - 2) ≤ q) : 2 ^ k ≤ 4 * q := by
  calc
    (2 : ℚ) ^ k = 4 * 2 ^ (k - 2) := by rw [← two_pow_add_two, Int.sub_add_cancel]
    _ ≤ 4 * q := mul_le_mul_of_nonneg_left low (by decide)

theorem lt_two_pow {a b : ℚ} {k : ℤ} (first : a < 2 ^ k) (second : b < 2 ^ k) : a + b < 2 ^ (k + 1) := by
  rw [zpow_add_one₀ two_ne_zero, mul_two]
  exact add_lt_add first second

theorem Totals.of_large (clear : ¬ Vanishes x) (large : 2 ^ (1023 : ℤ) ≤ magnitude x ^ 2) :
    Totals x z (.infinity .positive) := by
  refine .infinity (fun both => clear both.1) ?_
  calc
    (2 : ℚ) ^ (1021 : ℤ) ≤ 2 ^ (1023 : ℤ) := zpow_le_zpow_right₀ one_le_two (by decide)
    _ ≤ magnitude x ^ 2 := large
    _ ≤ magnitude x ^ 2 + magnitude z ^ 2 := le_add_of_nonneg_right (sq_nonneg _)

theorem Totals.swap {u : UnpackedFloat} (total : Totals x z u) : Totals z x u := by
  cases total with
  | zero vanishing => exact .zero vanishing.symm
  | finite clear size bounded most =>
      rw [add_comm] at size bounded
      exact .finite (fun vanishing => clear vanishing.symm) size bounded most
  | infinity clear large =>
      rw [add_comm] at large
      exact .infinity (fun vanishing => clear vanishing.symm) large

theorem Squares.alone {u : UnpackedFloat} (square : Squares x u) (vanishing : Vanishes z) : Totals x z u := by
  have more : 0 ≤ magnitude z ^ 2 := sq_nonneg _
  cases square with
  | zero faint => exact .zero ⟨faint, vanishing⟩
  | @finite m e positive clear low high most =>
      refine .finite (fun both => clear both.1) ?_ ?_ most
      · linarith [two_pow_le_of_low low, sq_nonneg (magnitude x)]
      · exact lt_two_pow (high.trans_le (zpow_le_zpow_right₀ one_le_two most)) vanishing.bounded
  | infinity clear large => exact .of_large clear large

theorem totals_of_finite {a b : Float} {m n : Nat} {e f : Int} {positive : 0 < m} {other : 0 < n}
    (left : view a = .finite .positive m e positive) (right : view b = .finite .positive n f other)
    (first : Squares x (view a)) (second : Squares z (view b)) : Totals x z (view (a + b)) := by
  rw [left] at first
  rw [right] at second
  obtain ⟨k, g, rest, sum, lands⟩ := lands_add left right
  cases first with
  | finite clear low high most =>
  cases second with
  | finite clear' low' high' most' =>
  generalize view (a + b) = u at lands ⊢
  have size : (2 : ℚ) ^ (totalExponent k g - 1) ≤ 4 * (magnitude x ^ 2 + magnitude z ^ 2) := by
    calc
      (2 : ℚ) ^ (totalExponent k g - 1) ≤ amount m e + amount n f := (le_amount rest).trans sum.le
      _ ≤ 2 ^ totalExponent m e + 2 ^ totalExponent n f := add_le_add (amount_lt positive).le (amount_lt other).le
      _ ≤ 4 * magnitude x ^ 2 + 4 * magnitude z ^ 2 := add_le_add (two_pow_le_of_low low) (two_pow_le_of_low low')
      _ = 4 * (magnitude x ^ 2 + magnitude z ^ 2) := (mul_add _ _ _).symm
  cases lands with
  | zero small half =>
      -- the sum is no less than its first term, which has been stored already
      have part : amount m e ≤ amount k g := sum ▸ le_add_of_nonneg_right (amount_pos other).le
      have more := (le_amount_iff rest).mp ((le_amount positive).trans part)
      have shape := (standard_view left).1.shape
      rw [totalExponent] at more
      omega
  | finite standard least grown near within =>
      refine .finite (fun both => clear both.1) ?_ ?_ within
      · calc
          _ ≤ (2 : ℚ) ^ (totalExponent k g - 1 + 2) := zpow_le_zpow_right₀ one_le_two (by omega)
          _ = 4 * 2 ^ (totalExponent k g - 1) := two_pow_add_two _
          _ ≤ 4 * (4 * (magnitude x ^ 2 + magnitude z ^ 2)) := mul_le_mul_of_nonneg_left size (by decide)
          _ = 16 * (magnitude x ^ 2 + magnitude z ^ 2) := by ring
      · exact lt_two_pow (high.trans_le (zpow_le_zpow_right₀ one_le_two most))
          (high'.trans_le (zpow_le_zpow_right₀ one_le_two most'))
  | infinity large =>
      refine .infinity (fun both => clear both.1) ?_
      have more : (2 : ℚ) ^ (1021 + 2 : ℤ) ≤ 2 ^ (totalExponent k g - 1) :=
        zpow_le_zpow_right₀ one_le_two (by omega)
      rw [two_pow_add_two] at more
      linarith

theorem totals {a b : Float} (first : Squares x (view a)) (second : Squares z (view b)) :
    Totals x z (view (a + b)) := by
  generalize left : view a = u at first
  generalize right : view b = w at second
  cases first with
  | zero vanishing =>
      rw [view_zero_add left (right.trans_ne second.above), right]
      exact (second.alone vanishing).swap
  | infinity clear large =>
      have same : view (a + b) = .infinity .positive := by
        rw [view_add, left, right]
        cases second <;> exact settle_infinity .positive
      rw [same]
      exact .of_large clear large
  | finite clear low high most =>
      cases second with
      | zero vanishing =>
          rw [view_add_zero right (left.trans_ne nofun), left]
          exact (Squares.finite clear low high most).alone vanishing
      | infinity clear large =>
          have same : view (a + b) = .infinity .positive := by
            rw [view_add, left, right]
            exact settle_infinity .positive
          rw [same]
          exact (Totals.of_large clear large).swap
      | finite clear' low' high' most' =>
          exact totals_of_finite left right (left ▸ .finite clear low high most)
            (right ▸ .finite clear' low' high' most')

end Lengths

section Quotients

variable {x length : Float}

theorem quotient_fades (finite : Scalar.isFinite x = true) (endless : view length = .infinity .positive) :
    (x / length == 0) = true := by
  rw [beq_zero_iff, view_div, endless]
  rcases cases_of_isFinite finite with ⟨s, seen⟩ | ⟨s, m, e, positive, seen⟩
  · rw [seen]
    exact ⟨_, settle_zero _⟩
  · rw [seen]
    exact ⟨_, settle_zero _⟩

theorem quotient_stays {m : Nat} {e : Int} {positive : 0 < m} (finite : Scalar.isFinite x = true)
    (seen : view length = .finite .positive m e positive)
    (near : 2 ^ (2 * totalExponent m e) ≤ 256 * magnitude x ^ 2) : (x / length == 0) = false := by
  rcases cases_of_isFinite finite with ⟨s, vanishing⟩ | ⟨s, n, f, other, shown⟩
  · rw [magnitude_of_zero vanishing, zero_pow two_ne_zero, mul_zero] at near
    exact absurd near (not_le.mpr (zpow_pos two_pos _))
  · have size : 2 * totalExponent m e < 2 * totalExponent n f + 8 := by
      rw [← zpow_lt_zpow_iff_right₀ (one_lt_two : (1 : ℚ) < 2)]
      calc
        (2 : ℚ) ^ (2 * totalExponent m e) ≤ 256 * magnitude x ^ 2 := near
        _ < 256 * (2 ^ totalExponent n f) ^ 2 := by
          rw [magnitude_of_finite shown]
          have below := pow_lt_pow_left₀ (amount_lt (e := f) other) (amount_pos other).le two_ne_zero
          exact mul_lt_mul_of_pos_left below (by decide)
        _ = 2 ^ (2 * totalExponent n f + 8) := by
          rw [zpow_add₀ two_ne_zero, mul_comm 2, zpow_mul, mul_comm]
          rfl
    obtain ⟨k, g, rest, least, lands⟩ := lands_div shown seen (by omega)
    refine beq_zero_of_view rfl fun t zero => ?_
    rw [zero] at lands
    cases lands
    omega

end Quotients

namespace Wind

/-- A direction that leads nowhere. -/
def Still (v : Vec3 Float) : Prop := (v.x == 0) = true ∧ (v.y == 0) = true ∧ (v.z == 0) = true

variable {v : Vec3 Float}

def force (v : Vec3 Float) : ℚ := magnitude v.x ^ 2 + magnitude v.z ^ 2

def Fades (v : Vec3 Float) : Prop := Vanishes v.x ∧ Vanishes v.z

theorem totals_flat (across : Scalar.isFinite v.x = true) (along : Scalar.isFinite v.z = true) :
    Totals v.x v.z (view (v.flat.dot v.flat)) := by
  have first := squares across
  have nought : view ((0 : Float) * 0) = .zero .positive := by rfl
  rw [← view_add_zero nought first.above] at first
  exact totals first (squares along)

/-- The length of a direction, as it is computed: zero, a number or without end, just as the sum of its squares is. -/
inductive Lengths (v : Vec3 Float) : UnpackedFloat → Prop
  | zero (fades : Fades v) : Lengths v (.zero .positive)
  | finite {m : Nat} {e : Int} {positive : 0 < m} (clear : ¬ Fades v)
      (whole : Scalar.isFinite (v.flat.dot v.flat) = true) (bounded : force v < 2 ^ (1025 : ℤ))
      (size : 2 ^ (2 * totalExponent m e) ≤ 128 * force v) : Lengths v (.finite .positive m e positive)
  | infinity (clear : ¬ Fades v) (endless : Scalar.isFinite (v.flat.dot v.flat) = false)
      (large : 2 ^ (1021 : ℤ) ≤ force v) : Lengths v (.infinity .positive)

theorem lengths_flat (across : Scalar.isFinite v.x = true) (along : Scalar.isFinite v.z = true) :
    Lengths v (view v.flat.norm) := by
  have total := totals_flat across along
  have root : view v.flat.norm = settle (sqrt .binary64 (view (v.flat.dot v.flat))) := view_sqrt _
  have whole : Scalar.isFinite (v.flat.dot v.flat) = (view (v.flat.dot v.flat)).isFinite := rfl
  generalize seen : view (v.flat.dot v.flat) = u at total root whole
  cases total with
  | zero vanishing =>
      rw [root]
      exact .zero vanishing
  | infinity clear large =>
      rw [root]
      exact .infinity clear whole large
  | @finite m e positive clear size bounded most =>
      obtain ⟨k, g, rest, half, lands⟩ := lands_sqrt seen
      have shape := (standard_view seen).1.shape
      have least : -1073 ≤ totalExponent m e := by
        rw [totalExponent]
        omega
      change Lands .positive k g (view v.flat.norm) at lands
      generalize view v.flat.norm = w at lands root
      -- a root lies far inside the range, whatever it is taken of
      cases lands with
      | zero small => omega
      | infinity large => omega
      | @finite n f other standard low grown near within =>
          refine .finite clear whole bounded ?_
          calc
            (2 : ℚ) ^ (2 * totalExponent n f) ≤ 2 ^ (totalExponent m e + 3) :=
              zpow_le_zpow_right₀ one_le_two (by omega)
            _ = 8 * 2 ^ totalExponent m e := by
              rw [zpow_add₀ two_ne_zero, mul_comm]
              rfl
            _ ≤ 8 * (16 * force v) := mul_le_mul_of_nonneg_left size (by decide)
            _ = 128 * force v := by ring

theorem not_still_heading {m : Nat} {e : Int} {positive : 0 < m} (across : Scalar.isFinite v.x = true)
    (along : Scalar.isFinite v.z = true) (seen : view v.flat.norm = .finite .positive m e positive)
    (size : 2 ^ (2 * totalExponent m e) ≤ 128 * force v) : ¬ Still (heading v) := by
  rintro ⟨first, -, second⟩
  rw [force] at size
  rcases le_total (magnitude v.x ^ 2) (magnitude v.z ^ 2) with less | less
  · have stays := quotient_stays along seen (by linarith)
    exact Bool.false_ne_true (stays.symm.trans second)
  · have stays := quotient_stays across seen (by linarith)
    exact Bool.false_ne_true (stays.symm.trans first)

theorem still_heading (across : Scalar.isFinite v.x = true) (along : Scalar.isFinite v.z = true)
    (endless : view v.flat.norm = .infinity .positive) : Still (heading v) :=
  ⟨quotient_fades across endless, quotient_fades (by rfl) endless, quotient_fades along endless⟩

/-- Axes are refused just when both squares vanish, and they lead nowhere just when the sum of the squares has no
end. -/
theorem axes_cases (across : Scalar.isFinite v.x = true) (along : Scalar.isFinite v.z = true) :
    (Fades v ∧ axes v = .error (.windVertical v.toList)) ∨
      (¬ Fades v ∧ axes v = .ok (heading v, sideways v) ∧
        (Still (heading v) ↔ Scalar.isFinite (v.flat.dot v.flat) = false) ∧
        (2 ^ (1025 : ℤ) ≤ force v → Still (heading v)) ∧ (force v < 2 ^ (1021 : ℤ) → ¬ Still (heading v))) := by
  have length := lengths_flat across along
  generalize seen : view v.flat.norm = u at length
  cases length with
  | zero fades => exact .inl ⟨fades, axes_of_zero (beq_zero_iff.mpr ⟨_, seen⟩)⟩
  | infinity clear endless large =>
      have still := still_heading across along seen
      exact .inr ⟨clear, axes_of_ne (beq_zero_of_view seen nofun), iff_of_true still endless, fun _ => still,
        fun small => absurd small (not_lt.mpr large)⟩
  | finite clear whole bounded size =>
      have moves := not_still_heading across along seen size
      exact .inr ⟨clear, axes_of_ne (beq_zero_of_view seen nofun), iff_of_false moves (Bool.not_eq_false _ ▸ whole),
        fun large => absurd bounded (not_lt.mpr large), fun _ => moves⟩

/-- A wind that passes has axes that lead somewhere, and moves both kinds of tree, as long as neither both of its
squares vanish nor their sum has no end. -/
theorem guards_agree_between (w : Wind Float) (passes : w.validate = .ok ()) :
    ∃ v : Vec3 Float, w.direction = v.toList ∧
      (∀ (s : BoneSway Float) (radii : List Float) (time phase : Float),
        ∃ rows, s.turns radii time w phase = .ok rows ∧ rows.length = radii.length) ∧
      (Fades v → w.horizontalAxes = .error (.windVertical w.direction) ∧
        ∀ (s : VertexSway Float) (radii heights : List Float) (time : Float), radii.length = heights.length →
          s.offsets radii heights time w = .error (.windVertical w.direction)) ∧
      (¬ Fades v → ∃ forth aside, w.horizontalAxes = .ok (forth, aside) ∧
        (Still forth ↔ Scalar.isFinite (v.flat.dot v.flat) = false) ∧
        (2 ^ (1025 : ℤ) ≤ force v → Still forth) ∧ (force v < 2 ^ (1021 : ℤ) → ¬ Still forth) ∧
        ∀ (s : VertexSway Float) (radii heights : List Float) (time : Float), radii.length = heights.length →
          ∃ rows, s.offsets radii heights time w = .ok rows ∧ rows.length = heights.length) := by
  have usable := usable_iff.mp passes
  obtain ⟨v, checked⟩ := exists_checked usable
  obtain ⟨three, -⟩ := checked_eq_ok.mp checked
  have finite : ∀ x ∈ v.toList, Scalar.isFinite x = true := by
    intro x member
    rw [← three] at member
    exact usable.finite x (List.mem_cons_of_mem _ member)
  have across := finite v.x (by simp [Vec3.toList])
  have along := finite v.z (by simp [Vec3.toList])
  refine ⟨v, three, fun s radii time phase => s.length_turns radii time phase usable,
    fun fades => ?_, fun clear => ?_⟩
  · obtain ⟨-, vanishing⟩ := (axes_cases across along).resolve_right fun other => other.1 fades
    refine ⟨?_, fun s radii heights time same => VertexSway.offsets_of_faint ⟨v, checked, vanishing⟩ same⟩
    rw [horizontalAxes_of_axes three, vanishing]
    rfl
  · obtain ⟨-, directed, still, strong, mild⟩ := (axes_cases across along).resolve_left fun other => clear other.1
    have blows : ¬ w.Faint := by
      rintro ⟨other, again, vanishing⟩
      cases checked.symm.trans again
      cases directed.symm.trans vanishing
    refine ⟨heading v, sideways v, ?_, still, strong, mild,
      fun s radii heights time same => VertexSway.length_offsets usable blows same⟩
    rw [horizontalAxes_of_axes three, directed]
    rfl

def gentle : Wind Float := ⟨[1, 0, Float.ofBits 1], 1, none⟩

theorem guards_agree_between_gentle :
    gentle.validate = .ok () ∧ ∃ forth aside, gentle.horizontalAxes = .ok (forth, aside) ∧ ¬ Still forth ∧
      ∃ rows, VertexSway.standard.offsets [1] [1] 0 gentle = .ok rows := by
  have passes : gentle.validate = .ok () :=
    usable_iff.mpr ⟨by decide +kernel, 1, 0, Float.ofBits 1, rfl, by decide +kernel⟩
  obtain ⟨⟨x, y, z⟩, three, -, -, agree⟩ := guards_agree_between gentle passes
  cases three
  have first : view 1 = .finite .positive (2 ^ 52) (-52) (by decide) := by rfl
  have last : view (Float.ofBits 1) = .finite .positive 1 (-1074) one_pos := by rfl
  have one : magnitude 1 = 1 := by
    rw [magnitude_of_finite first]
    decide +kernel
  have clear : ¬ Fades ⟨1, 0, Float.ofBits 1⟩ := by
    rintro ⟨vanishing, -⟩
    rw [Vanishes, one] at vanishing
    exact absurd vanishing (by decide +kernel)
  have bounded : force ⟨1, 0, Float.ofBits 1⟩ < 2 ^ (1021 : ℤ) := by
    rw [force, one, magnitude_of_finite last]
    decide +kernel
  obtain ⟨forth, aside, directed, -, -, moves, sways⟩ := agree clear
  obtain ⟨rows, swayed, -⟩ := sways .standard [1] [1] 0 rfl
  exact ⟨passes, forth, aside, directed, moves bounded, rows, swayed⟩

/-- A wind too faint for its square to be told from zero. -/
def breath : Wind Float := ⟨[1e-200, 0, 0], 1, none⟩

/-- A wind too fierce for its square to be stored. -/
def tempest : Wind Float := ⟨[1e200, 0, 0], 1, none⟩

/-- A wind that passes may be refused where bones sway in it, and may be given axes that lead nowhere. -/
theorem breath_and_tempest_differ :
    (breath.validate = .ok () ∧ breath.horizontalAxes = .error (.windVertical breath.direction) ∧
        (∃ rows, BoneSway.standard.turns [1, 1] 0 breath 0 = .ok rows) ∧
        VertexSway.standard.offsets [1] [1] 0 breath = .error (.windVertical breath.direction)) ∧
      (tempest.validate = .ok () ∧ ∃ forth aside, tempest.horizontalAxes = .ok (forth, aside) ∧ Still forth) ∧
      ¬ ∀ w : Wind Float, w.validate = .ok () →
        ∃ forth aside, w.horizontalAxes = .ok (forth, aside) ∧ ¬ Still forth := by
  have mild : breath.Usable := ⟨by decide +kernel, 1e-200, 0, 0, rfl, by decide +kernel⟩
  have strong : tempest.Usable := ⟨by decide +kernel, 1e200, 0, 0, rfl, by decide +kernel⟩
  have nothing : ((Vec3.flat (⟨1e-200, 0, 0⟩ : Vec3 Float)).norm == 0) = true := by decide +kernel
  have something : ((Vec3.flat (⟨1e200, 0, 0⟩ : Vec3 Float)).norm == 0) = false := by decide +kernel
  have still : Still (heading (⟨1e200, 0, 0⟩ : Vec3 Float)) :=
    ⟨by decide +kernel, by decide +kernel, by decide +kernel⟩
  have refused : breath.horizontalAxes = .error (.windVertical breath.direction) := by
    rw [horizontalAxes_of_axes (v := ⟨1e-200, 0, 0⟩) rfl, axes_of_zero nothing]
    rfl
  have given : tempest.horizontalAxes = .ok (heading ⟨1e200, 0, 0⟩, sideways ⟨1e200, 0, 0⟩) := by
    rw [horizontalAxes_of_axes (v := ⟨1e200, 0, 0⟩) rfl, axes_of_ne something]
    rfl
  have faint : breath.Faint := ⟨⟨1e-200, 0, 0⟩, checked_eq_ok.mpr ⟨rfl, mild⟩, axes_of_zero nothing⟩
  obtain ⟨rows, bends, -⟩ := BoneSway.standard.length_turns [1, 1] 0 0 mild
  refine ⟨⟨usable_iff.mpr mild, refused, ⟨rows, bends⟩, VertexSway.offsets_of_faint faint rfl⟩,
    ⟨usable_iff.mpr strong, _, _, given, still⟩, fun agree => ?_⟩
  obtain ⟨forth, aside, directed, -⟩ := agree breath (usable_iff.mpr mild)
  cases refused.symm.trans directed

end Wind

end Arbor
