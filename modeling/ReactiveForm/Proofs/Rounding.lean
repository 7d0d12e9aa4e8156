import ReactiveForm.Expression.Compute
import ReactiveForm.Proofs.Shortest

/-!
# The laws of rounding to places

A computed number is rounded by way of two decimals: the shortest one that reads back as the number,
and the one that this is rounded to, which is then read as a double.  Each of the three steps keeps
the order, and none of them does anything but change the sign when the number changes its sign; so
rounding as a whole has the laws one expects (`roundToPlaces_laws`).

Two of them need more than that.  Rounding never leaves the finite range, since a number so large
that it could has no digits after the point to be rounded (`exponent_shortest_nonneg`).  And
rounding twice is rounding once: the result reads back from a decimal with no more than the given
places, so its shortest decimal has no more of them either and is kept.
-/

set_option autoImplicit false
namespace ReactiveForm

/-! ## Decimals -/

namespace Decimal

variable {a b d : Decimal} {mode : Rounding} {places : Nat}

theorem value_roundTo_mono (mode : Rounding) (places : Nat) (h : a.value ≤ b.value) :
    (a.roundTo mode places).value ≤ (b.roundTo mode places).value := by
  rw [value_roundTo, value_roundTo]
  have hscaled : a.value * 10 ^ places ≤ b.value * 10 ^ places :=
    mul_le_mul_of_nonneg_right h (by positivity)
  exact div_le_div_of_nonneg_right (Int.cast_le.2 (mode.toInt_mono hscaled)) (by positivity)

theorem value_ofInt (n : Int) : (ofInt n).value = n := by simp [value, ofInt]

/-- An integer has no digits to be rounded. -/
theorem roundTo_ofInt (mode : Rounding) (places : Nat) (n : Int) :
    (ofInt n).roundTo mode places = ofInt n := if_pos (Int.neg_nonpos_of_nonneg (by positivity))

/-- **Rounding does not pass an integer.** -/
theorem abs_value_roundTo_le (mode : Rounding) (places : Nat) {n : Int} (h : |d.value| ≤ n) :
    |(d.roundTo mode places).value| ≤ n := by
  rw [abs_le] at h ⊢
  rw [← Int.cast_neg, ← value_ofInt, ← value_ofInt] at h
  have hlower := value_roundTo_mono mode places h.1
  have hupper := value_roundTo_mono mode places h.2
  rw [roundTo_ofInt, value_ofInt, Int.cast_neg] at hlower
  rw [roundTo_ofInt, value_ofInt] at hupper
  exact ⟨hlower, hupper⟩

theorem value_roundTo_floor_le :
    (d.roundTo .floor places).value ≤ (d.roundTo .nearest places).value := by
  rw [value_roundTo, value_roundTo]
  exact div_le_div_of_nonneg_right (Int.cast_le.2 (Rounding.floor_le_nearest _)) (by positivity)

theorem value_roundTo_le_ceiling :
    (d.roundTo .nearest places).value ≤ (d.roundTo .ceiling places).value := by
  rw [value_roundTo, value_roundTo]
  exact div_le_div_of_nonneg_right (Int.cast_le.2 (Rounding.nearest_le_ceiling _)) (by positivity)

theorem value_roundTo_nearest_neg (h : a.value = -b.value) :
    (a.roundTo .nearest places).value = -(b.roundTo .nearest places).value := by
  rw [value_roundTo, value_roundTo, h, neg_mul, Rounding.nearest_neg, Int.cast_neg, neg_div]

theorem value_roundTo_ceiling_neg (h : a.value = -b.value) :
    (a.roundTo .ceiling places).value = -(b.roundTo .floor places).value := by
  rw [value_roundTo, value_roundTo, h, neg_mul, Rounding.ceiling_neg, Int.cast_neg, neg_div]

theorem neg_places_le_exponent (mode : Rounding) (places : Nat) (d : Decimal) :
    -(places : Int) ≤ (d.roundTo mode places).exponent := by
  rw [roundTo]
  split
  · assumption
  · exact le_rfl

end Decimal

/-! ## Doubles and their shortest decimals -/

namespace Finite64

variable {x y : Finite64} {tie : Tie}

/-- **The number a double denotes.** -/
def value (x : Finite64) : ℚ := x.signed / unitsPerOne

theorem value_le_iff : x.value ≤ y.value ↔ x.signed ≤ y.signed := by
  rw [value, value, div_le_div_iff_of_pos_right unitsPerOne_pos, Int.cast_le]

theorem value_eq_of_signed_eq (h : x.signed = y.signed) : x.value = y.value := by
  rw [value, value, h]

theorem value_eq_neg_of_signed_eq (h : x.signed = -y.signed) : x.value = -y.value := by
  rw [value, value, h, Int.cast_neg, neg_div]

theorem natAbs_signed (x : Finite64) : x.signed.natAbs = x.units := Decimal.natAbs_ite_neg _ _

theorem value_toDecimal (tie : Tie) (x : Finite64) : (x.toDecimal tie).value =
    if x.negative then -(x.shortest tie).value else (x.shortest tie).value := by
  rw [toDecimal, Decimal.ofMagnitude, Decimal.value, Magnitude.value]
  split
  · rw [Int.cast_neg, Int.cast_natCast, neg_mul]
  · rw [Int.cast_natCast]

theorem magnitude_toDecimal (tie : Tie) (x : Finite64) :
    (x.toDecimal tie).magnitude = x.shortest tie := by
  rw [toDecimal, Decimal.ofMagnitude, Decimal.magnitude, Decimal.natAbs_ite_neg]

theorem shortest_of_units_eq_zero (h : x.units = 0) : x.shortest tie = ⟨0, 0⟩ := if_pos h

/-- **The shortest decimal reads back**, with its sign. -/
theorem signedUnits_toDecimal (tie : Tie) (x : Finite64) :
    (x.toDecimal tie).signedUnits = x.signed := by
  by_cases hzero : x.units = 0
  · have hunits : (x.toDecimal tie).signedUnits.natAbs = 0 := by
      rw [Decimal.natAbs_signedUnits, magnitude_toDecimal, units_shortest, hzero]
    have hsigned : x.signed.natAbs = 0 := by rw [natAbs_signed, hzero]
    rw [Int.natAbs_eq_zero.1 hunits, Int.natAbs_eq_zero.1 hsigned]
  · have hpos : 0 < (x.shortest tie).value := by
      refine (x.shortest tie).value_nonneg.lt_of_ne' fun hvalue ↦ hzero ?_
      rw [← units_shortest tie x]
      exact Magnitude.units_eq_zero (by rw [hvalue]; norm_num)
    have hsign : (x.toDecimal tie).coefficient < 0 ↔ x.negative = true := by
      rw [Decimal.coefficient_neg_iff, value_toDecimal]
      split
      · simp [*]
      · simp [*, hpos.le]
    rw [Decimal.signedUnits, magnitude_toDecimal, units_shortest, signed]
    simp only [hsign]

theorem value_toDecimal_congr (h : x.signed = y.signed) :
    (x.toDecimal tie).value = (y.toDecimal tie).value := by
  have hunits : x.units = y.units := by rw [← natAbs_signed, ← natAbs_signed, h]
  rw [value_toDecimal, value_toDecimal, shortest_congr hunits]
  by_cases hzero : y.units = 0
  · simp [shortest_of_units_eq_zero hzero, Magnitude.value]
  · have hnegative : x.negative = y.negative := by
      rw [signed, signed, hunits] at h
      cases hx : x.negative <;> cases hy : y.negative <;> simp [hx, hy] at h ⊢ <;> omega
    rw [hnegative]

theorem value_toDecimal_neg (tie : Tie) (x : Finite64) :
    (x.neg.toDecimal tie).value = -(x.toDecimal tie).value := by
  have hshortest : x.neg.shortest tie = x.shortest tie := shortest_congr rfl tie
  rw [value_toDecimal, value_toDecimal, hshortest, neg]
  cases x.negative <;> simp

/-- **A greater double has a greater shortest decimal.**  If it were the other way round, reading
the decimals back would show the doubles to be equal. -/
theorem value_toDecimal_mono (h : x.signed ≤ y.signed) :
    (x.toDecimal tie).value ≤ (y.toDecimal tie).value := by
  by_contra hlt
  have hge := Decimal.signedUnits_mono (not_le.1 hlt).le
  rw [signedUnits_toDecimal, signedUnits_toDecimal] at hge
  exact hlt (value_toDecimal_congr (h.antisymm hge)).le

/-! ### Large numbers -/

variable {k n : Nat}

theorem hasSignificand_whole (k : Nat) : HasSignificand (2 ^ k * unitsPerOne) := by
  rw [unitsPerOne_eq, ← pow_add]
  exact hasSignificand_pow _

theorem whole_lt_unitLimit (h : k < 1024) : 2 ^ k * unitsPerOne < unitLimit := by
  rw [unitsPerOne_eq, ← pow_add]
  exact (Nat.pow_lt_pow_right (by decide) (by omega)).trans_eq unitLimit_eq.symm

theorem le_log2_of_whole_le (h : 2 ^ k * unitsPerOne ≤ n) : k + 1074 ≤ n.log2 := by
  rw [unitsPerOne_eq, ← pow_add] at h
  exact (Nat.le_log2 ((Nat.two_pow_pos _).trans_le h).ne').2 h

/-- **The shortest decimal of a large number has no digits after the point**: the number is whole,
and so it is itself a decimal without such digits. -/
theorem exponent_shortest_nonneg (tie : Tie) (h : 2 ^ 52 * unitsPerOne ≤ x.units) :
    0 ≤ (x.shortest tie).exponent := by
  have hlog := le_log2_of_whole_le h
  have hne : x.units ≠ 0 := fun hzero ↦ by simp [hzero] at hlog
  obtain ⟨n, hn⟩ : unitsPerOne ∣ x.units := by
    refine dvd_trans ?_ x.hasSignificand_units.spacing_dvd
    rw [unitsPerOne_eq, spacing_eq]
    exact pow_dvd_pow 2 (by omega)
  have hvalue : (⟨n, 0⟩ : Magnitude).value * unitsPerOne = x.units := by
    rw [Magnitude.value, zpow_zero, mul_one, hn, Nat.cast_mul, mul_comm]
  exact le_exponent_shortest tie hne ((Magnitude.units_le x.hasSignificand_units hvalue.le).antisymm
    (Magnitude.le_units x.hasSignificand_units hvalue.ge))

theorem abs_value_toDecimal_le (h : (x.toDecimal tie).exponent < 0) :
    |(x.toDecimal tie).value| ≤ (2 ^ 52 : ℕ) := by
  by_contra hlt
  rw [← Decimal.value_magnitude, magnitude_toDecimal] at hlt
  have hlarge : 2 ^ 52 * unitsPerOne ≤ (x.shortest tie).units := by
    refine Magnitude.le_units (hasSignificand_whole 52) ?_
    rw [Nat.cast_mul]
    exact mul_le_mul_of_nonneg_right (not_le.1 hlt).le unitsPerOne_pos.le
  rw [units_shortest] at hlarge
  exact absurd (exponent_shortest_nonneg tie hlarge) h.not_ge

/-! ## Rounding a double -/

variable {mode : Rounding} {places : Nat}

/-- The decimal that a rounded number is read from. -/
def roundedDecimal (mode : Rounding) (places : Nat) (x : Finite64) : Decimal :=
  (x.toDecimal .upward).roundTo mode places

/-- **Rounding stays in the finite range.** -/
theorem units_roundedDecimal_lt (mode : Rounding) (places : Nat) (x : Finite64) :
    (x.roundedDecimal mode places).magnitude.units < unitLimit := by
  rw [roundedDecimal]
  by_cases hkept : -(places : Int) ≤ (x.toDecimal .upward).exponent
  · rw [Decimal.roundTo, if_pos hkept, magnitude_toDecimal, units_shortest]
    exact x.representable.1
  · have hbound : |(x.toDecimal .upward).value| ≤ (2 ^ 52 : ℕ) := abs_value_toDecimal_le (by omega)
    have hrounded := Decimal.abs_value_roundTo_le mode places (n := (2 ^ 52 : ℕ)) hbound
    rw [← Decimal.value_magnitude] at hrounded
    calc ((x.toDecimal .upward).roundTo mode places).magnitude.units
        ≤ 2 ^ 52 * unitsPerOne := by
          refine Magnitude.units_le (hasSignificand_whole 52) ?_
          rw [Nat.cast_mul]
          exact mul_le_mul_of_nonneg_right hrounded unitsPerOne_pos.le
      _ < unitLimit := whole_lt_unitLimit (by decide)

/-- **The rounded number is the double read from the rounded decimal.** -/
theorem exists_roundToPlaces (mode : Rounding) (places : Nat) (x : Finite64) :
    ∃ y : Finite64, (Binary64.finite x).roundToPlaces mode places = some (.finite y) ∧
      y.signed = (x.roundedDecimal mode places).signedUnits := by
  obtain ⟨y, hread, hsigned⟩ := Decimal.toBinary_of_lt (units_roundedDecimal_lt mode places x)
  exact ⟨y, congrArg some hread, hsigned⟩

/-- **What is read from a decimal with few places is kept by rounding to them.** -/
theorem signedUnits_roundedDecimal_of_places {d : Decimal} (hsigned : y.signed = d.signedUnits)
    (hplaces : -(places : Int) ≤ d.exponent) :
    (y.roundedDecimal mode places).signedUnits = y.signed := by
  have hexponent : -(places : Int) ≤ (y.toDecimal .upward).exponent := by
    rw [toDecimal, Decimal.ofMagnitude]
    by_cases hzero : y.units = 0
    · rw [shortest_of_units_eq_zero hzero]
      exact Int.neg_nonpos_of_nonneg (by positivity)
    · refine hplaces.trans (le_exponent_shortest (d := d.magnitude) .upward hzero ?_)
      rw [← Decimal.natAbs_signedUnits, ← hsigned, natAbs_signed]
  rw [roundedDecimal, Decimal.roundTo, if_pos hexponent, signedUnits_toDecimal]

end Finite64

/-- **The laws of rounding.**  Rounding a finite number to places always gives a finite number, the
double nearest to the decimal that the digits of the number are rounded to.  The three modes are in
order; the ceiling of the opposite number is the opposite of the floor, and the nearest one of the
opposite number is the opposite of the nearest one; numbers in order are rounded to numbers in
order; and what has been rounded is kept by rounding it again. -/
theorem roundToPlaces_laws (places : Nat) :
    ∃ rounded : Rounding → Finite64 → Finite64,
      (∀ mode x, (Binary64.finite x).roundToPlaces mode places = some (.finite (rounded mode x))) ∧
      (∀ mode x, ∃ d : Decimal, d.toBinary = .finite (rounded mode x) ∧
        d.value = mode.toInt ((x.toDecimal .upward).value * 10 ^ places) / 10 ^ places) ∧
      (∀ x, (rounded .floor x).value ≤ (rounded .nearest x).value ∧
        (rounded .nearest x).value ≤ (rounded .ceiling x).value) ∧
      (∀ x, (rounded .ceiling x.neg).value = -(rounded .floor x).value ∧
        (rounded .nearest x.neg).value = -(rounded .nearest x).value) ∧
      (∀ mode x y, x.value ≤ y.value → (rounded mode x).value ≤ (rounded mode y).value) ∧
      (∀ mode x, (rounded mode (rounded mode x)).value = (rounded mode x).value) := by
  choose rounded hrounded hsigned using fun mode x ↦ Finite64.exists_roundToPlaces mode places x
  refine ⟨rounded, hrounded, fun mode x ↦ ?decimal, fun x ↦ ⟨?floor, ?ceiling⟩,
    fun x ↦ ⟨?ceiling_neg, ?nearest_neg⟩, fun mode x y h ↦ ?mono, fun mode x ↦ ?again⟩
  case decimal =>
    exact ⟨x.roundedDecimal mode places, Option.some.inj (hrounded mode x),
      Decimal.value_roundTo mode places _⟩
  case floor =>
    rw [Finite64.value_le_iff, hsigned, hsigned]
    exact Decimal.signedUnits_mono Decimal.value_roundTo_floor_le
  case ceiling =>
    rw [Finite64.value_le_iff, hsigned, hsigned]
    exact Decimal.signedUnits_mono Decimal.value_roundTo_le_ceiling
  case ceiling_neg =>
    refine Finite64.value_eq_neg_of_signed_eq ?_
    rw [hsigned, hsigned]
    exact Decimal.signedUnits_neg (Decimal.value_roundTo_ceiling_neg (x.value_toDecimal_neg _))
  case nearest_neg =>
    refine Finite64.value_eq_neg_of_signed_eq ?_
    rw [hsigned, hsigned]
    exact Decimal.signedUnits_neg (Decimal.value_roundTo_nearest_neg (x.value_toDecimal_neg _))
  case mono =>
    rw [Finite64.value_le_iff] at h ⊢
    rw [hsigned, hsigned]
    exact Decimal.signedUnits_mono
      (Decimal.value_roundTo_mono mode places (Finite64.value_toDecimal_mono h))
  case again =>
    refine Finite64.value_eq_of_signed_eq ?_
    rw [hsigned mode (rounded mode x)]
    exact Finite64.signedUnits_roundedDecimal_of_places (hsigned mode x)
      (Decimal.neg_places_le_exponent mode places _)

/-- The laws at work on two numbers: the floors of `-0.005` and `1.005` to two places are in
order. -/
theorem roundToPlaces_laws_floors :
    ∃ x y a b : Finite64,
      (⟨-5, -3⟩ : Decimal).toBinary = .finite x ∧ (⟨1005, -3⟩ : Decimal).toBinary = .finite y ∧
      (Binary64.finite x).roundToPlaces .floor 2 = some (.finite a) ∧
      (Binary64.finite y).roundToPlaces .floor 2 = some (.finite b) ∧
      x.value ≤ y.value ∧ a.value ≤ b.value := by
  obtain ⟨x, hx, hxsigned⟩ := Decimal.toBinary_of_lt (d := ⟨-5, -3⟩) (by decide +kernel)
  obtain ⟨y, hy, hysigned⟩ := Decimal.toBinary_of_lt (d := ⟨1005, -3⟩) (by decide +kernel)
  have hle : x.value ≤ y.value := by
    rw [Finite64.value_le_iff, hxsigned, hysigned]
    exact Decimal.signedUnits_mono (by norm_num [Decimal.value])
  obtain ⟨rounded, hrounded, _, _, _, hmono, _⟩ := roundToPlaces_laws 2
  exact ⟨x, y, _, _, hx, hy, hrounded _ _, hrounded _ _, hle, hmono _ _ _ hle⟩

/-- The double nearest to `1.005` is below it, and still goes to `1.01`. -/
example : (⟨1005, -3⟩ : Decimal).toBinary.roundToPlaces .nearest 2 =
    some (⟨101, -2⟩ : Decimal).toBinary := by
  decide +kernel

end ReactiveForm
