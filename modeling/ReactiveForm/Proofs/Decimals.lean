import Mathlib.Algebra.Order.Floor.Ring
import Mathlib.Data.Rat.Floor
import ReactiveForm.Proofs.Nearest

/-!
# What decimals denote

A decimal denotes a rational number, its `value`, and all that is done with decimals can be said of
that number alone, whatever coefficient and exponent write it.  Comparing decimals compares their
values (`Decimal.compare_eq_lt`, `compare_eq_eq`, `compare_eq_gt`).  Rounding one to some places
rounds the value, counted in units of the last place, to an integer (`Decimal.value_roundTo`).
Reading one as a double keeps the order of the values (`Decimal.signedUnits_mono`).

Reading a decimal first looks at its size and settles the extreme cases without computing any power;
`Magnitude.toBinary_eq_ofRatio` says that this is a short cut and no other rounding.

## Which numbers are integers

Doubles are held as whole numbers of *units*, the least positive double, of which `unitsPerOne` make
one.  So the double nearest to a decimal is found among natural numbers, as the one nearest to a
quotient of two of them (`Magnitude.numerator`, `Magnitude.denominator`), and no rational number is
computed.  The bridge is `Magnitude.numerator_div_denominator`: the quotient is the value, counted
in units.  Each fact about the nearest number of units is the fact about `nearest`, carried over
this bridge: it is monotone, and what is representable on one side of the value stays on that side.

Signs are put back at the end.  A signed decimal is read as its magnitude is, and rounding to the
nearest integer is odd (`Rounding.nearest_neg`), so what is shown for numbers of one sign holds for
the other.
-/

set_option autoImplicit false
namespace ReactiveForm

/-- One is a power of two of units. -/
theorem unitsPerOne_eq : unitsPerOne = 2 ^ 1074 := one_shiftLeft_eq 1074

/-- The first number of units that is too large for a double. -/
theorem unitLimit_eq : unitLimit = 2 ^ 2098 := one_shiftLeft_eq 2098

theorem unitsPerOne_pos : (0 : ℚ) < unitsPerOne := by
  rw [unitsPerOne_eq, Nat.cast_pow, Nat.cast_ofNat]
  exact pow_pos two_pos 1074

theorem tenTo_eq (n : Nat) : tenTo n = 10 ^ n := rfl

/-- A power of ten with an integer exponent, as a quotient of two with natural exponents. -/
theorem tenTo_div_tenTo (e : Int) : (tenTo e.toNat : ℚ) / tenTo (-e).toNat = 10 ^ e := by
  rw [tenTo_eq, tenTo_eq, Nat.cast_pow, Nat.cast_pow, Nat.cast_ofNat, ← zpow_natCast,
    ← zpow_natCast, ← zpow_sub₀ (by norm_num)]
  congr 1
  omega

/-! ## Unsigned decimals

What is read is a coefficient and an exponent; the sign is looked at separately. -/

namespace Magnitude

variable {a b d : Magnitude} {m : Nat}

/-- **The number a decimal denotes.** -/
def value (d : Magnitude) : ℚ := d.coefficient * 10 ^ d.exponent

theorem value_nonneg (d : Magnitude) : 0 ≤ d.value := by
  rw [value]
  positivity

/-- The units of the double nearest to a decimal, before the limit is looked at. -/
def units (d : Magnitude) : Nat := nearest d.numerator d.denominator

theorem denominator_pos (d : Magnitude) : 0 < d.denominator := by
  rw [denominator, tenTo_eq]
  positivity

theorem cast_denominator_pos (d : Magnitude) : (0 : ℚ) < d.denominator := by
  exact_mod_cast d.denominator_pos

/-- **The quotient that is rounded** is the value, counted in units. -/
theorem numerator_div_denominator (d : Magnitude) :
    (d.numerator : ℚ) / d.denominator = d.value * unitsPerOne := by
  rw [numerator, denominator, value, ← tenTo_div_tenTo]
  push_cast
  ring

theorem hasSignificand_units (d : Magnitude) : HasSignificand d.units :=
  hasSignificand_nearest _ _

/-- A larger number has no fewer units. -/
theorem units_mono (h : a.value ≤ b.value) : a.units ≤ b.units := by
  refine nearest_mono a.denominator_pos b.denominator_pos ?_
  have hquotient : (a.numerator : ℚ) / a.denominator ≤ b.numerator / b.denominator := by
    rw [numerator_div_denominator, numerator_div_denominator]
    exact mul_le_mul_of_nonneg_right h unitsPerOne_pos.le
  rw [div_le_div_iff₀ a.cast_denominator_pos b.cast_denominator_pos] at hquotient
  exact_mod_cast hquotient

/-- A number of units that a double can have, and that is not above the value, is not above what
the value is rounded to. -/
theorem le_units (hm : HasSignificand m) (h : (m : ℚ) ≤ d.value * unitsPerOne) : m ≤ d.units := by
  refine le_nearest d.denominator_pos hm ?_
  rw [← numerator_div_denominator, le_div_iff₀ d.cast_denominator_pos] at h
  exact_mod_cast h

/-- The same from above. -/
theorem units_le (hm : HasSignificand m) (h : d.value * unitsPerOne ≤ m) : d.units ≤ m := by
  refine nearest_le d.denominator_pos hm ?_
  rw [← numerator_div_denominator, div_le_iff₀ d.cast_denominator_pos] at h
  exact_mod_cast h

/-- What is above a number of units by no more than a quarter of the spacing there is not rounded
up to the next one. -/
theorem units_le_of_close (hm : HasSignificand m) (hne : m ≠ 0)
    (h : d.value * unitsPerOne * 4 ≤ 4 * m + spacing m) : d.units ≤ m := by
  refine nearest_le_of_close d.denominator_pos hm hne ?_
  rw [← numerator_div_denominator, div_mul_eq_mul_div, div_le_iff₀ d.cast_denominator_pos] at h
  exact_mod_cast h

/-- Whether a decimal is read as a double is a matter of its units. -/
theorem readsBack_iff {x : Finite64} : d.readsBack x = true ↔ d.units = x.units := by
  rw [readsBack, beq_iff_eq, units]

/-! ### Reading a decimal

The reader settles three cases by looking at the coefficient and the exponent alone: nothing, too
large, too small.  The bounds 400 and -400 are far from sharp; that `10 ^ 400` exceeds `2 ^ 1024`
and that `10 ^ (-401)` is below half a unit is all that is needed of them. -/

/-- With an exponent above 400 a decimal is too large, whatever its coefficient. -/
theorem unitLimit_le_units (hne : d.coefficient ≠ 0) (h : 400 < d.exponent) :
    unitLimit ≤ d.units := by
  have hcoefficient : (1 : ℚ) ≤ d.coefficient := by exact_mod_cast Nat.one_le_iff_ne_zero.2 hne
  have hpower : (2 : ℚ) ^ 1024 ≤ 10 ^ d.exponent := by
    calc (2 : ℚ) ^ 1024 ≤ 2 ^ (3 * 400) := pow_le_pow_right₀ one_le_two (by norm_num)
      _ = (2 ^ 3) ^ 400 := pow_mul 2 3 400
      _ ≤ 10 ^ 400 := pow_le_pow_left₀ (by norm_num) (by norm_num) 400
      _ = 10 ^ ((400 : ℕ) : ℤ) := (zpow_natCast 10 400).symm
      _ ≤ 10 ^ d.exponent := zpow_le_zpow_right₀ (by norm_num) (by exact_mod_cast h.le)
  rw [unitLimit_eq]
  refine le_units (hasSignificand_pow 2098) ?_
  rw [unitsPerOne_eq, value, Nat.cast_pow, Nat.cast_pow, Nat.cast_ofNat]
  calc (2 : ℚ) ^ 2098 = 2 ^ 1024 * 2 ^ 1074 := pow_add 2 1024 1074
    _ ≤ d.coefficient * 10 ^ d.exponent * 2 ^ 1074 := by
        refine mul_le_mul_of_nonneg_right ?_ (pow_nonneg two_pos.le 1074)
        exact hpower.trans (le_mul_of_one_le_left (zpow_nonneg (by norm_num) _) hcoefficient)

/-- Up to half a unit is rounded to nothing. -/
theorem units_eq_zero (h : 2 * (d.value * unitsPerOne) ≤ 1) : d.units = 0 := by
  refine nearest_eq_zero ?_
  rw [← numerator_div_denominator, ← mul_div_assoc, div_le_one d.cast_denominator_pos] at h
  exact_mod_cast h

theorem two_mul_unitsPerOne : 2 * (unitsPerOne : ℚ) = 2 ^ 1075 := by
  rw [unitsPerOne_eq, Nat.cast_pow, Nat.cast_ofNat]
  exact (pow_succ' 2 1074).symm

/-- A decimal is rounded to nothing if its exponent is that far below what the coefficient has in
binary digits. -/
theorem units_eq_zero_of_small (h : d.exponent + d.coefficient.log2 < -400) : d.units = 0 := by
  have hcoefficient : (d.coefficient : ℚ) ≤ 2 ^ (d.coefficient.log2 + 1) := by
    exact_mod_cast (Nat.lt_log2_self (n := d.coefficient)).le
  have hexponent : d.exponent ≤ -((d.coefficient.log2 + 401 : ℕ) : ℤ) := by
    push_cast
    omega
  have hpower : (2 : ℚ) ^ (d.coefficient.log2 + 1) * (2 * unitsPerOne) ≤
      10 ^ (d.coefficient.log2 + 401) := by
    rw [two_mul_unitsPerOne, ← pow_add]
    calc (2 : ℚ) ^ (d.coefficient.log2 + 1 + 1075) ≤ 2 ^ (3 * (d.coefficient.log2 + 401)) :=
          pow_le_pow_right₀ one_le_two (by omega)
      _ = (2 ^ 3) ^ (d.coefficient.log2 + 401) := pow_mul _ _ _
      _ ≤ 10 ^ (d.coefficient.log2 + 401) := pow_le_pow_left₀ (by norm_num) (by norm_num) _
  have hu := unitsPerOne_pos
  refine units_eq_zero ?_
  rw [value]
  -- from here on the two numbers are any that satisfy the bounds: they are too large to compute
  generalize (unitsPerOne : ℚ) = u at hpower hu
  generalize d.coefficient.log2 + 401 = k at hexponent hpower
  have hcombined : (d.coefficient : ℚ) * (2 * u) ≤ 10 ^ k :=
    (mul_le_mul_of_nonneg_right hcoefficient (by positivity)).trans hpower
  have hinverse : (10 : ℚ) ^ d.exponent ≤ 10 ^ (-(k : ℤ)) :=
    zpow_le_zpow_right₀ (by norm_num) hexponent
  calc 2 * ((d.coefficient : ℚ) * 10 ^ d.exponent * u)
      = d.coefficient * (2 * u) * 10 ^ d.exponent := by ring
    _ ≤ 10 ^ k * 10 ^ (-(k : ℤ)) := mul_le_mul hcombined hinverse (by positivity) (by positivity)
    _ = 1 := by
        rw [zpow_neg, zpow_natCast]
        exact mul_inv_cancel₀ (by positivity)

theorem ofRatio_of_lt (negative : Bool) (h : d.units < unitLimit) :
    Binary64.ofRatio negative d.numerator d.denominator =
      .finite ⟨negative, d.units, representable_nearest h⟩ := dif_pos h

theorem ofRatio_of_le (negative : Bool) (h : unitLimit ≤ d.units) :
    Binary64.ofRatio negative d.numerator d.denominator = .infinite negative := dif_neg h.not_gt

theorem ofRatio_of_eq_zero (negative : Bool) (h : d.units = 0) :
    Binary64.ofRatio negative d.numerator d.denominator = .zero negative := by
  have hlt : d.units < unitLimit := h ▸ representable_zero.1
  rw [ofRatio_of_lt negative hlt, Binary64.zero]
  congr 2

/-- **Settling the extreme cases first is no other rounding.** -/
theorem toBinary_eq_ofRatio (negative : Bool) (d : Magnitude) :
    d.toBinary negative = .ofRatio negative d.numerator d.denominator := by
  rw [toBinary]
  split
  · rename_i hcoefficient
    refine (ofRatio_of_eq_zero negative (units_eq_zero ?_)).symm
    simp [value, hcoefficient]
  · rename_i hcoefficient
    split
    · rename_i hexponent
      exact (ofRatio_of_le negative (unitLimit_le_units hcoefficient hexponent)).symm
    · split
      · rename_i hsmall
        exact (ofRatio_of_eq_zero negative (units_eq_zero_of_small hsmall)).symm
      · rfl

end Magnitude

/-! ## Signed decimals -/

namespace Decimal

variable {a b d : Decimal}

/-- **The number a decimal denotes.** -/
def value (d : Decimal) : ℚ := d.coefficient * 10 ^ d.exponent

/-- The coefficient over a power that is not above the decimal's own. -/
theorem coefficientAt_eq (d : Decimal) {exponent : Int} (h : exponent ≤ d.exponent) :
    (d.coefficientAt exponent : ℚ) = d.value / 10 ^ exponent := by
  have hpower : (tenTo (d.exponent - exponent).toNat : ℚ) = 10 ^ (d.exponent - exponent) := by
    rw [tenTo_eq, Nat.cast_pow, Nat.cast_ofNat, ← zpow_natCast, Int.toNat_of_nonneg (by omega)]
  rw [coefficientAt, value, Int.cast_mul, Int.cast_natCast, hpower, zpow_sub₀ (by norm_num),
    mul_div_assoc]

/-! ### The order of decimals

Two decimals are compared by their coefficients once both are written with the smaller of the two
exponents. -/

/-- Over a common power the coefficients are in the order of the values. -/
theorem coefficientAt_lt_iff (a b : Decimal) :
    a.coefficientAt (min a.exponent b.exponent) < b.coefficientAt (min a.exponent b.exponent) ↔
      a.value < b.value := by
  have hpos : (0 : ℚ) < 10 ^ min a.exponent b.exponent := by positivity
  rw [← Int.cast_lt (R := ℚ), coefficientAt_eq a (min_le_left _ _),
    coefficientAt_eq b (min_le_right _ _), div_lt_div_iff_of_pos_right hpos]

/-- **Decimals are compared by the numbers they denote**, whatever exponents they have. -/
theorem compare_eq_lt : a.compare b = .lt ↔ a.value < b.value := by
  rw [compare, Int.compare_eq_lt, coefficientAt_lt_iff]

theorem compare_eq_gt : a.compare b = .gt ↔ b.value < a.value := by
  rw [compare, Int.compare_eq_gt, min_comm, coefficientAt_lt_iff]

theorem compare_eq_eq : a.compare b = .eq ↔ a.value = b.value := by
  cases h : a.compare b with
  | lt => simpa using (compare_eq_lt.1 h).ne
  | gt => simpa using (compare_eq_gt.1 h).ne'
  | eq =>
    refine iff_of_true rfl (le_antisymm ?_ ?_)
    · exact not_lt.1 fun hlt ↦ by simp [compare_eq_gt.2 hlt] at h
    · exact not_lt.1 fun hlt ↦ by simp [compare_eq_lt.2 hlt] at h

end Decimal

/-! ## Rounding to places

The three ways to round are first described for rational numbers, as functions to the integers.
Then each agrees with what is computed from a numerator and a denominator (`roundQuotient_eq`), and
rounding to some places is rounding to an integer ten to the places higher up. -/

namespace Rounding

variable {mode : Rounding} {p q : ℚ}

/-- **The integer that a number is rounded to.** -/
def toInt : Rounding → ℚ → Int
  | .floor, q => ⌊q⌋
  | .ceiling, q => ⌈q⌉
  | .nearest, q => if q < 0 then -⌊-q + 1 / 2⌋ else ⌊q + 1 / 2⌋

/-- An integer is rounded to itself. -/
@[simp] theorem toInt_intCast (mode : Rounding) (n : Int) : mode.toInt n = n := by
  have hhalf (n : Int) : ⌊(n : ℚ) + 1 / 2⌋ = n := by
    rw [Int.floor_eq_iff]
    constructor <;> linarith
  cases mode with
  | floor => exact Int.floor_intCast n
  | ceiling => exact Int.ceil_intCast n
  | nearest =>
    have hneg := hhalf (-n)
    rw [Int.cast_neg] at hneg
    rw [toInt, hneg, hhalf, neg_neg, ite_self]

/-- **Rounding keeps the order**, in each of the three ways. -/
theorem toInt_mono (mode : Rounding) (h : p ≤ q) : mode.toInt p ≤ mode.toInt q := by
  cases mode with
  | floor => exact Int.floor_le_floor h
  | ceiling => exact Int.ceil_le_ceil h
  | nearest =>
    rw [toInt, toInt]
    -- numbers of one sign are rounded alike; if the signs differ, zero lies in between
    split <;> split
    · exact neg_le_neg (Int.floor_le_floor (by linarith))
    · rename_i hp hq
      have hleft : 0 ≤ ⌊-p + 1 / 2⌋ := Int.floor_nonneg.2 (by linarith)
      have hright : 0 ≤ ⌊q + 1 / 2⌋ := Int.floor_nonneg.2 (by linarith)
      omega
    · linarith
    · exact Int.floor_le_floor (by linarith)

theorem floor_le_nearest (q : ℚ) : toInt .floor q ≤ toInt .nearest q := by
  rw [toInt, toInt]
  split
  · have hhalf : ⌊-q + 1 / 2⌋ ≤ -⌊q⌋ := by
      rw [← Int.lt_add_one_iff, Int.floor_lt]
      push_cast
      linarith [Int.floor_le q]
    omega
  · exact Int.floor_le_floor (by linarith)

/-- Rounding to the nearest integer does not care about the sign, for ties go away from zero. -/
theorem nearest_neg (q : ℚ) : toInt .nearest (-q) = -toInt .nearest q := by
  rw [toInt, toInt]
  rcases lt_trichotomy q 0 with h | rfl | h
  · rw [if_neg (by linarith), if_pos h, neg_neg]
  · norm_num
  · rw [if_pos (by linarith), if_neg (by linarith), neg_neg]

/-- Rounding up is rounding down with the sign changed. -/
theorem ceiling_neg (q : ℚ) : toInt .ceiling (-q) = -toInt .floor q := Int.ceil_neg

theorem nearest_le_ceiling (q : ℚ) : toInt .nearest q ≤ toInt .ceiling q := by
  have h := floor_le_nearest (-q)
  rw [nearest_neg, toInt, Int.floor_neg] at h
  exact neg_le_neg_iff.1 h

end Rounding

namespace Decimal

variable {a b d : Decimal}

/-- What is computed from a numerator and a denominator is the quotient, rounded. -/
theorem roundQuotient_eq (mode : Rounding) (n : Int) {den : Nat} (hden : 0 < den) :
    roundQuotient mode n den = mode.toInt ((n : ℚ) / den) := by
  have hfloor (n : Int) : n.fdiv den = ⌊(n : ℚ) / den⌋ := by
    rw [Int.fdiv_eq_ediv_of_nonneg _ (by positivity), Rat.floor_intCast_div_natCast]
  cases mode with
  | floor => exact hfloor n
  | ceiling =>
    rw [roundQuotient, hfloor, Rounding.toInt, Int.cast_neg, neg_div, Int.floor_neg, neg_neg]
  | nearest =>
    have hq : (0 : ℚ) < den := by exact_mod_cast hden
    -- ties go away from zero, so the quotient is rounded by its amount
    have hsign : (n : ℚ) / den < 0 ↔ n < 0 := by rw [div_lt_iff₀ hq, zero_mul, Int.cast_lt_zero]
    have hhalf : ⌊(n.natAbs : ℚ) / den + 1 / 2⌋ = ((2 * n.natAbs + den) / (2 * den) : ℕ) := by
      have hsum : (n.natAbs : ℚ) / den + 1 / 2 =
          ((2 * n.natAbs + den : ℕ) : ℤ) / ((2 * den : ℕ) : ℚ) := by
        rw [Int.cast_natCast, Nat.cast_add, Nat.cast_mul, Nat.cast_mul, Nat.cast_ofNat]
        field_simp
      rw [hsum, Rat.floor_intCast_div_natCast]
      rfl
    by_cases hn : n < 0
    · have habs : (n.natAbs : ℚ) = -n := by rw [Nat.cast_natAbs, abs_of_neg hn, Int.cast_neg]
      rw [habs, neg_div] at hhalf
      rw [roundQuotient, if_pos hn, Rounding.toInt, if_pos (hsign.2 hn), hhalf]
    · have habs : (n.natAbs : ℚ) = n := by rw [Nat.cast_natAbs, abs_of_nonneg (not_lt.1 hn)]
      rw [habs] at hhalf
      rw [roundQuotient, if_neg hn, Rounding.toInt, if_neg (hsign.not.2 hn), hhalf]

/-- **Rounding a decimal to places** rounds what it denotes, counted in units of the last place. -/
theorem value_roundTo (mode : Rounding) (places : Nat) (d : Decimal) :
    (d.roundTo mode places).value = mode.toInt (d.value * 10 ^ places) / 10 ^ places := by
  have hten : (10 : ℚ) ^ places ≠ 0 := by positivity
  rw [roundTo]
  split
  · rename_i hexponent
    -- there are no more places than that, and nothing to round
    have hinteger : d.value * 10 ^ places =
        ((d.coefficient * 10 ^ (d.exponent + places).toNat : ℤ) : ℚ) := by
      rw [value, mul_assoc, ← zpow_natCast, ← zpow_add₀ (by norm_num), Int.cast_mul, Int.cast_pow,
        Int.cast_ofNat, ← zpow_natCast, Int.toNat_of_nonneg (by omega)]
    rw [hinteger, Rounding.toInt_intCast, ← hinteger, mul_div_cancel_right₀ _ hten]
  · rename_i hexponent
    have hden : (tenTo (-places - d.exponent).toNat : ℚ) = 10 ^ (-places - d.exponent) := by
      rw [tenTo_eq, Nat.cast_pow, Nat.cast_ofNat, ← zpow_natCast, Int.toNat_of_nonneg (by omega)]
    have hquotient : (d.coefficient : ℚ) / tenTo (-places - d.exponent).toNat =
        d.value * 10 ^ places := by
      rw [hden, value, div_eq_mul_inv, ← zpow_neg, mul_assoc, ← zpow_natCast,
        ← zpow_add₀ (by norm_num)]
      congr 2
      ring
    rw [value, roundQuotient_eq mode _ (by rw [tenTo_eq]; positivity), hquotient, zpow_neg,
      zpow_natCast, div_eq_mul_inv]

/-! ### Reading a signed decimal

With the sign put back, the number of units is an integer.  It depends on the value alone
(`signedUnits_congr`), although coefficient and exponent are what it is computed from. -/

theorem natAbs_ite_neg (p : Prop) [Decidable p] (n : Nat) :
    (if p then -(n : Int) else n).natAbs = n := by
  split
  · rw [Int.natAbs_neg, Int.natAbs_natCast]
  · rw [Int.natAbs_natCast]

/-- The decimal without its sign. -/
def magnitude (d : Decimal) : Magnitude := ⟨d.coefficient.natAbs, d.exponent⟩

theorem value_magnitude (d : Decimal) : d.magnitude.value = |d.value| := by
  rw [Magnitude.value, value, abs_mul, abs_of_nonneg (zpow_nonneg (by norm_num : (0 : ℚ) ≤ 10) _)]
  simp only [magnitude, Nat.cast_natAbs, Int.cast_abs]

/-- The units of the double nearest to a decimal, with the sign, before the limit is looked at. -/
def signedUnits (d : Decimal) : Int :=
  if d.coefficient < 0 then -d.magnitude.units else d.magnitude.units

theorem natAbs_signedUnits (d : Decimal) : d.signedUnits.natAbs = d.magnitude.units :=
  natAbs_ite_neg _ _

/-- The sign of a decimal is that of its coefficient. -/
theorem coefficient_neg_iff : d.coefficient < 0 ↔ d.value < 0 := by
  have hpos : (0 : ℚ) < 10 ^ d.exponent := by positivity
  rw [value, ← lt_div_iff₀ hpos, zero_div, Int.cast_lt_zero]

/-- **Reading decimals keeps their order.** -/
theorem signedUnits_mono (h : a.value ≤ b.value) : a.signedUnits ≤ b.signedUnits := by
  rw [signedUnits, signedUnits]
  split <;> split
  · rename_i ha hb
    rw [coefficient_neg_iff] at ha hb
    refine neg_le_neg (Int.ofNat_le.2 (Magnitude.units_mono ?_))
    rw [value_magnitude, value_magnitude, abs_of_neg ha, abs_of_neg hb]
    exact neg_le_neg h
  · omega
  · rename_i ha hb
    rw [coefficient_neg_iff] at ha hb
    exact absurd (h.trans_lt hb) ha
  · rename_i ha hb
    rw [coefficient_neg_iff, not_lt] at ha hb
    refine Int.ofNat_le.2 (Magnitude.units_mono ?_)
    rwa [value_magnitude, value_magnitude, abs_of_nonneg ha, abs_of_nonneg hb]

/-- Decimals that denote the same number are read as the same. -/
theorem signedUnits_congr (h : a.value = b.value) : a.signedUnits = b.signedUnits :=
  (signedUnits_mono h.le).antisymm (signedUnits_mono h.ge)

/-- Reading commutes with a change of sign. -/
theorem signedUnits_neg (h : a.value = -b.value) : a.signedUnits = -b.signedUnits := by
  have hneg : (⟨-b.coefficient, b.exponent⟩ : Decimal).signedUnits = -b.signedUnits := by
    have hmagnitude : (⟨-b.coefficient, b.exponent⟩ : Decimal).magnitude = b.magnitude := by
      simp [magnitude]
    rw [signedUnits, signedUnits, hmagnitude]
    rcases lt_trichotomy b.coefficient 0 with hlt | hzero | hgt
    · rw [if_neg (by simpa using hlt.le), if_pos hlt, neg_neg]
    · have hunits : b.magnitude.units = 0 := by
        refine Magnitude.units_eq_zero ?_
        simp [Magnitude.value, magnitude, hzero]
      simp [hunits]
    · rw [if_pos (by simpa using hgt), if_neg hgt.not_gt]
  rw [← hneg]
  refine signedUnits_congr ?_
  rw [h, value, value, Int.cast_neg, neg_mul]

/-- A decimal that is read within the limit gives a double, and that has the sign and the units. -/
theorem toBinary_of_lt (h : d.magnitude.units < unitLimit) :
    ∃ x : Finite64, d.toBinary = .finite x ∧ x.signed = d.signedUnits := by
  refine ⟨_, (Magnitude.toBinary_eq_ofRatio _ _).trans (Magnitude.ofRatio_of_lt _ h), ?_⟩
  simp [Finite64.signed, signedUnits]

end Decimal

end ReactiveForm
