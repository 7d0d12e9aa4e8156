import Mathlib.Algebra.Order.Field.Power
import Mathlib.Tactic.FieldSimp
import Mathlib.Tactic.Linarith
import Mathlib.Tactic.NormNum.Pow
import Mathlib.Tactic.Positivity
import Mathlib.Tactic.Ring
import ReactiveForm.Numeric.Decimal

/-!
# Rounding to the nearest double

`nearest` rounds a quotient of naturals to a number of units with a significand of at most 53 bits.
Two facts about it carry everything that is said about reading and writing numbers: it stays on the
same side of each number that has such a significand (`le_nearest`, `nearest_le`), so that it keeps
such numbers, and it keeps the order (`nearest_mono`).  A quotient close enough to such a number
goes to it (`nearest_le_of_close`).

All is said of natural numbers, by products across the quotients.  Between one power of two and the
next, the numbers with a significand are the multiples of a smaller power of two, the `spacing`.
Rounding there is rounding to a multiple.  A number with a significand beyond a power of two is
further away than that power, which has a significand itself; so the two kinds of bounds are shown
for multiples first, and then carried across powers of two.
-/

set_option autoImplicit false
namespace ReactiveForm

section

variable {num den num' den' k m : Nat}

/-! ## Rounding a quotient to a natural number -/

/-- Rounding does not go below a number that the quotient is not below. -/
theorem le_roundHalfEven (hden : 0 < den) (h : k * den ≤ num) : k ≤ roundHalfEven num den := by
  have hk : k ≤ num / den := (Nat.le_div_iff_mul_le hden).2 h
  unfold roundHalfEven
  split <;> omega

/-- Rounding does not go above a number that the quotient exceeds by less than a half. -/
theorem roundHalfEven_le_of_lt (h : 2 * num < (2 * k + 1) * den) : roundHalfEven num den ≤ k := by
  have hden : 0 < den := Nat.pos_of_mul_pos_left (Nat.zero_lt_of_lt h)
  have hfloor : num / den ≤ k := by
    refine Nat.lt_succ_iff.1 ((Nat.div_lt_iff_lt_mul hden).2 ?_)
    rw [Nat.succ_mul]
    nlinarith
  rcases Nat.lt_or_eq_of_le hfloor with hlt | rfl
  · exact (roundHalfEven_le num den).trans hlt
  · have hcompare : compare (2 * (num % den)) den = .lt := by
      rw [Nat.compare_eq_lt]
      have := Nat.div_add_mod num den
      nlinarith
    rw [roundHalfEven, hcompare]

theorem roundHalfEven_le_of_le (hden : 0 < den) (h : num ≤ k * den) : roundHalfEven num den ≤ k :=
  roundHalfEven_le_of_lt (by nlinarith)

private theorem div_le_div_of_mul_le (hden : 0 < den) (hden' : 0 < den')
    (h : num * den' ≤ num' * den) : num / den ≤ num' / den' := by
  refine (Nat.le_div_iff_mul_le hden').2 (Nat.le_of_mul_le_mul_right ?_ hden)
  calc num / den * den' * den = num / den * den * den' := by ring
    _ ≤ num * den' := Nat.mul_le_mul_right _ (Nat.div_mul_le_self num den)
    _ ≤ num' * den := h

/-- **The rounding of a quotient keeps the order.** -/
theorem roundHalfEven_mono (hden : 0 < den) (hden' : 0 < den') (h : num * den' ≤ num' * den) :
    roundHalfEven num den ≤ roundHalfEven num' den' := by
  have hfloor := div_le_div_of_mul_le hden hden' h
  rcases Nat.lt_or_eq_of_le hfloor with hlt | heq
  · calc roundHalfEven num den ≤ num / den + 1 := roundHalfEven_le num den
      _ ≤ num' / den' := hlt
      _ ≤ roundHalfEven num' den' := le_roundHalfEven hden' (Nat.div_mul_le_self num' den')
  · -- both lie above the same natural number, so that what is left over decides
    have hmod : num % den * den' ≤ num' % den' * den := by
      refine Nat.le_of_add_le_add_left (a := den * (num' / den') * den') ?_
      calc den * (num' / den') * den' + num % den * den'
          = (den * (num / den) + num % den) * den' := by rw [heq]; ring
        _ = num * den' := by rw [Nat.div_add_mod]
        _ ≤ num' * den := h
        _ = (den' * (num' / den') + num' % den') * den := by rw [Nat.div_add_mod]
        _ = den * (num' / den') * den' + num' % den' * den := by ring
    have hbelow : 2 * (num' % den') < den' → 2 * (num % den) < den := by
      intro hlt
      by_contra hnot
      push Not at hnot
      nlinarith
    have habove : den < 2 * (num % den) → den' < 2 * (num' % den') := by
      intro hlt
      by_contra hnot
      push Not at hnot
      nlinarith
    unfold roundHalfEven
    rw [heq]
    split <;> split <;> rename_i h₁ _ h₂ <;>
      simp only [Nat.compare_eq_lt, Nat.compare_eq_eq, Nat.compare_eq_gt] at h₁ h₂ <;> omega

/-! ## Significands -/

/-- **A number of units with a significand of at most 53 bits**: a double, the limit apart. -/
def HasSignificand (n : Nat) : Prop :=
  ∃ significand shift : Nat, significand < 1 <<< 53 ∧ n = significand <<< shift

theorem Representable.hasSignificand (h : Representable m) : HasSignificand m := h.2

/-- What a quotient is rounded to has a significand. -/
theorem hasSignificand_nearest (num den : Nat) : HasSignificand (nearest num den) :=
  exists_shift_nearest num den

theorem hasSignificand_pow (k : Nat) : HasSignificand (2 ^ k) :=
  ⟨1, k, by decide, by rw [Nat.one_shiftLeft]⟩

theorem one_shiftLeft_eq (n : Nat) : 1 <<< n = 2 ^ n := Nat.one_shiftLeft n

/-- The spacing among numbers of the size of a number, with 53 binary digits each. -/
theorem spacing_eq (n : Nat) : spacing n = 2 ^ (n.log2 - 52) := one_shiftLeft_eq _

theorem spacing_pos (n : Nat) : 0 < spacing n := by
  rw [spacing_eq]
  exact Nat.two_pow_pos _

theorem spacing_dvd_pow (n : Nat) : spacing n ∣ 2 ^ n.log2 := by
  rw [spacing_eq]
  exact pow_dvd_pow 2 (Nat.sub_le _ _)

/-- A number with a significand that is no multiple of the spacing at `n` is below the power of two
that the spacing goes by. -/
theorem HasSignificand.spacing_dvd_or_lt (h : HasSignificand m) (n : Nat) :
    spacing n ∣ m ∨ n ≠ 0 ∧ m < 2 ^ n.log2 := by
  obtain ⟨significand, shift, hlt, rfl⟩ := h
  rw [Nat.shiftLeft_eq, spacing_eq]
  rcases Nat.lt_or_ge shift (n.log2 - 52) with hgt | hle
  · refine .inr ⟨?_, ?_⟩
    · rintro rfl
      simp at hgt
    · calc significand * 2 ^ shift < 2 ^ 53 * 2 ^ shift := by
            rw [Nat.one_shiftLeft] at hlt
            exact Nat.mul_lt_mul_of_pos_right hlt (Nat.two_pow_pos _)
        _ = 2 ^ (53 + shift) := (pow_add 2 53 shift).symm
        _ ≤ 2 ^ n.log2 := Nat.pow_le_pow_right (by decide) (by omega)
  · exact .inl ((pow_dvd_pow 2 hle).mul_left significand)

/-! ## The nearest number with a significand -/

private theorem le_nearest_of_dvd (hden : 0 < den) (hdvd : spacing (num / den) ∣ m)
    (h : m * den ≤ num) : m ≤ nearest num den := by
  obtain ⟨k, rfl⟩ := hdvd
  rw [nearest, mul_comm]
  refine Nat.mul_le_mul_right _ (le_roundHalfEven (Nat.mul_pos (spacing_pos _) hden) ?_)
  rwa [← mul_assoc, mul_comm k]

private theorem nearest_le_of_dvd (hden : 0 < den) (hdvd : spacing (num / den) ∣ m)
    (h : num ≤ m * den) : nearest num den ≤ m := by
  obtain ⟨k, rfl⟩ := hdvd
  rw [nearest, mul_comm (spacing (num / den)) k]
  refine Nat.mul_le_mul_right _ (roundHalfEven_le_of_le (Nat.mul_pos (spacing_pos _) hden) ?_)
  rwa [← mul_assoc, mul_comm k]

/-- **The nearest one is not below a number with a significand that the quotient is not below.** -/
theorem le_nearest (hden : 0 < den) (hm : HasSignificand m) (h : m * den ≤ num) :
    m ≤ nearest num den := by
  rcases hm.spacing_dvd_or_lt (num / den) with hdvd | ⟨hne, hlt⟩
  · exact le_nearest_of_dvd hden hdvd h
  · refine hlt.le.trans (le_nearest_of_dvd hden (spacing_dvd_pow _) ?_)
    exact (Nat.mul_le_mul_right _ (Nat.log2_self_le hne)).trans (Nat.div_mul_le_self num den)

/-- **The nearest one is not above a number with a significand that the quotient is not above.** -/
theorem nearest_le (hden : 0 < den) (hm : HasSignificand m) (h : num ≤ m * den) :
    nearest num den ≤ m := by
  rcases hm.spacing_dvd_or_lt (num / den) with hdvd | ⟨hne, hlt⟩
  · exact nearest_le_of_dvd hden hdvd h
  · have hfloor : num / den ≤ m := Nat.div_le_of_le_mul (by rwa [mul_comm])
    have := Nat.log2_self_le hne
    omega

/-- Nothing is left of what is not above one half. -/
theorem nearest_eq_zero (h : 2 * num ≤ den) : nearest num den = 0 := by
  have hfloor : num / den = 0 := Nat.div_eq_zero_iff.2 (by omega)
  have hmod : num % den = num := by
    have := Nat.div_add_mod num den
    rwa [hfloor, mul_zero, zero_add] at this
  have hspacing : spacing 0 = 1 := rfl
  rw [nearest, hfloor, hspacing, one_mul, mul_one, roundHalfEven, hfloor, hmod]
  split
  · rfl
  · rfl
  · rename_i hgt
    rw [Nat.compare_eq_gt] at hgt
    omega

/-- **Going to the nearest one keeps the order.** -/
theorem nearest_mono (hden : 0 < den) (hden' : 0 < den') (h : num * den' ≤ num' * den) :
    nearest num den ≤ nearest num' den' := by
  have hfloor := div_le_div_of_mul_le hden hden' h
  rcases Nat.lt_or_ge (num / den).log2 (num' / den').log2 with hlt | hge
  · -- a power of two lies between the quotients
    have hne : num' / den' ≠ 0 := by
      intro hzero
      simp [hzero] at hlt
    have hpow : num / den < 2 ^ (num' / den').log2 :=
      Nat.lt_log2_self.trans_le (Nat.pow_le_pow_right (by decide) hlt)
    calc nearest num den ≤ 2 ^ (num' / den').log2 :=
          nearest_le hden (hasSignificand_pow _) ((Nat.div_lt_iff_lt_mul hden).1 hpow).le
      _ ≤ nearest num' den' := le_nearest hden' (hasSignificand_pow _)
          ((Nat.mul_le_mul_right _ (Nat.log2_self_le hne)).trans (Nat.div_mul_le_self num' den'))
  · have hspacing : spacing (num / den) = spacing (num' / den') := by
      have hlog : (num / den).log2 ≤ (num' / den').log2 := by
        by_cases hzero : num / den = 0
        · simp [hzero]
        · have hne : num' / den' ≠ 0 := fun hzero' ↦ hzero (Nat.le_zero.1 (hzero' ▸ hfloor))
          exact (Nat.le_log2 hne).2 ((Nat.log2_self_le hzero).trans hfloor)
      rw [spacing_eq, spacing_eq, hlog.antisymm hge]
    rw [nearest, nearest, hspacing]
    refine Nat.mul_le_mul_right _ (roundHalfEven_mono (Nat.mul_pos (spacing_pos _) hden)
      (Nat.mul_pos (spacing_pos _) hden') ?_)
    calc num * (spacing (num' / den') * den') = num * den' * spacing (num' / den') := by ring
      _ ≤ num' * den * spacing (num' / den') := Nat.mul_le_mul_right _ h
      _ = num' * (spacing (num' / den') * den) := by ring

/-! ## Numbers close to one with a significand -/

/-- A number with a significand is a multiple of the spacing at its size. -/
theorem HasSignificand.spacing_dvd (hm : HasSignificand m) : spacing m ∣ m := by
  rcases hm.spacing_dvd_or_lt m with hdvd | ⟨hne, hlt⟩
  · exact hdvd
  · exact absurd (Nat.log2_self_le hne) hlt.not_ge

/-- The next multiple of the spacing is not above the next power of two. -/
theorem HasSignificand.add_spacing_le (hm : HasSignificand m) :
    m + spacing m ≤ 2 ^ (m.log2 + 1) := by
  obtain ⟨k, hk⟩ := hm.spacing_dvd
  obtain ⟨j, hj⟩ := (spacing_dvd_pow m).trans (pow_dvd_pow 2 (Nat.le_succ m.log2))
  have hbelow : spacing m * k < spacing m * j := by
    rw [← hk, ← hj]
    exact Nat.lt_log2_self
  calc m + spacing m = spacing m * (k + 1) := by rw [mul_add, mul_one, ← hk]
    _ ≤ spacing m * j := Nat.mul_le_mul_left _ (Nat.lt_of_mul_lt_mul_left hbelow)
    _ = 2 ^ (m.log2 + 1) := hj.symm

/-- **A quotient that is above a number with a significand by no more than a quarter of the spacing
goes back to that number.** -/
theorem nearest_le_of_close (hden : 0 < den) (hm : HasSignificand m) (hne : m ≠ 0)
    (h : num * 4 ≤ (4 * m + spacing m) * den) : nearest num den ≤ m := by
  refine (nearest_mono hden four_pos h).trans ?_
  have hpos := spacing_pos m
  have hlog : ((4 * m + spacing m) / 4).log2 = m.log2 := by
    have hnext := hm.add_spacing_le
    refine (Nat.log2_eq_iff (by omega)).2 ⟨(Nat.log2_self_le hne).trans (by omega), by omega⟩
  obtain ⟨k, hk⟩ := hm.spacing_dvd
  rw [nearest, spacing_eq ((4 * m + spacing m) / 4), hlog, ← spacing_eq]
  calc roundHalfEven (4 * m + spacing m) (spacing m * 4) * spacing m ≤ k * spacing m := by
        refine Nat.mul_le_mul_right _ (roundHalfEven_le_of_lt ?_)
        nlinarith
    _ = m := by rw [mul_comm, ← hk]

end

end ReactiveForm
