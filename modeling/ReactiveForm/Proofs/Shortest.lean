import ReactiveForm.Numeric.Shortest
import ReactiveForm.Proofs.Decimals

/-!
# The shortest decimal of a double

`Finite64.shortest` looks through two dozen grids of powers of ten.  What it finds there has the two
properties that one wants of the decimal which a double is written with: it reads back as the double
(`Finite64.units_shortest`), and no coarser grid has a point that does
(`Finite64.le_exponent_shortest`).

That it finds something rests on the size of the first grid, which is computed from the length of
the units by an approximation of a logarithm.  `ten_zpow_bounds` says how good the approximation is;
so the first grid is too coarse for any point, and the last one is finer than a quarter of the
distance between doubles.
-/

set_option autoImplicit false
namespace ReactiveForm

/-! ## The approximation of a logarithm -/

/-- If the powers with exponents `k` and `e` agree up to a factor of two, so do roughly their powers
in turn. -/
private theorem two_zpow_le_ten_zpow_le {k e : Nat} (hlow : (2 : ℚ) ^ k ≤ 10 ^ e)
    (hhigh : (10 : ℚ) ^ e ≤ 2 ^ (k + 1)) {n : Int} (hn : n.natAbs ≤ k) :
    (2 : ℚ) ^ (k * (n - 1)) ≤ 10 ^ (e * n) ∧ (10 : ℚ) ^ (e * n) ≤ 2 ^ (k * (n + 1)) := by
  have hmono {i j : Int} (h : i ≤ j) : (2 : ℚ) ^ i ≤ 2 ^ j := zpow_le_zpow_right₀ one_le_two h
  obtain ⟨m, rfl | rfl⟩ := n.eq_nat_or_neg
  · have hm : (m : Int) ≤ k := by omega
    have hlower : (2 : ℚ) ^ ((k * m : ℕ) : ℤ) ≤ 10 ^ ((e * m : ℕ) : ℤ) := by
      rw [zpow_natCast, zpow_natCast, pow_mul, pow_mul]
      exact pow_le_pow_left₀ (by positivity) hlow m
    have hupper : (10 : ℚ) ^ ((e * m : ℕ) : ℤ) ≤ 2 ^ (((k + 1) * m : ℕ) : ℤ) := by
      rw [zpow_natCast, zpow_natCast, pow_mul, pow_mul]
      exact pow_le_pow_left₀ (by positivity) hhigh m
    push_cast at hlower hupper
    exact ⟨(hmono (by nlinarith)).trans hlower, hupper.trans (hmono (by nlinarith))⟩
  · have hm : (m : Int) ≤ k := by omega
    have hlower : (2 : ℚ) ^ (-((k + 1) * m : ℕ) : ℤ) ≤ 10 ^ (-(e * m : ℕ) : ℤ) := by
      rw [zpow_neg, zpow_neg, zpow_natCast, zpow_natCast, pow_mul, pow_mul]
      exact inv_anti₀ (by positivity) (pow_le_pow_left₀ (by positivity) hhigh m)
    have hupper : (10 : ℚ) ^ (-(e * m : ℕ) : ℤ) ≤ 2 ^ (-(k * m : ℕ) : ℤ) := by
      rw [zpow_neg, zpow_neg, zpow_natCast, zpow_natCast, pow_mul, pow_mul]
      exact inv_anti₀ (by positivity) (pow_le_pow_left₀ (by positivity) hlow m)
    push_cast at hlower hupper
    rw [mul_neg]
    exact ⟨(hmono (by nlinarith)).trans hlower, hupper.trans (hmono (by nlinarith))⟩

/-- The same for a quotient of the exponents that is rounded downward. -/
private theorem ten_zpow_fdiv_bounds {k e : Nat} (hk : k ≠ 0) (hlow : (2 : ℚ) ^ k ≤ 10 ^ e)
    (hhigh : (10 : ℚ) ^ e ≤ 2 ^ (k + 1)) {n : Int} (hn : n.natAbs ≤ k) :
    (10 : ℚ) ^ (n * e).fdiv k ≤ 2 ^ (n + 1) ∧ (2 : ℚ) ^ (n - 1) ≤ 10 ^ ((n * e).fdiv k + 1) := by
  obtain ⟨hlower, hupper⟩ := two_zpow_le_ten_zpow_le hlow hhigh hn
  have hmono {i j : Int} (h : i ≤ j) : (10 : ℚ) ^ i ≤ 10 ^ j := zpow_le_zpow_right₀ (by norm_num) h
  have hpos : (0 : Int) < k := by omega
  have hdiv : (n * e).fdiv k = n * e / k := Int.fdiv_eq_ediv_of_nonneg _ hpos.le
  have hbelow : k * ((n * e).fdiv k) ≤ e * n := by
    rw [hdiv, mul_comm (e : Int)]
    exact Int.mul_ediv_self_le hpos.ne'
  have habove : e * n ≤ k * ((n * e).fdiv k + 1) := by
    rw [hdiv, mul_comm (e : Int), mul_add, mul_one]
    exact (Int.lt_mul_ediv_self_add hpos).le
  -- the k-th powers are compared
  constructor
  · rw [← pow_le_pow_iff_left₀ (by positivity) (by positivity) hk, ← zpow_natCast, ← zpow_natCast,
      ← zpow_mul, ← zpow_mul, mul_comm _ (k : Int), mul_comm _ (k : Int)]
    exact (hmono hbelow).trans hupper
  · rw [← pow_le_pow_iff_left₀ (by positivity) (by positivity) hk, ← zpow_natCast, ← zpow_natCast,
      ← zpow_mul, ← zpow_mul, mul_comm _ (k : Int), mul_comm _ (k : Int)]
    exact hlower.trans (hmono habove)

/-- **How good the approximation of a logarithm is**: it is wrong by less than a factor of two, and
by what is lost to rounding downward. -/
theorem ten_zpow_bounds {n : Int} (hn : n.natAbs ≤ 100000) :
    (10 : ℚ) ^ (n * 30103).fdiv 100000 ≤ 2 ^ (n + 1) ∧
      (2 : ℚ) ^ (n - 1) ≤ 10 ^ ((n * 30103).fdiv 100000 + 1) := by
  have hlow : 2 ^ 100000 ≤ 10 ^ 30103 := by decide +kernel
  have hhigh : 10 ^ 30103 ≤ 2 ^ (100000 + 1) := by decide +kernel
  exact ten_zpow_fdiv_bounds (by decide) (by exact_mod_cast hlow) (by exact_mod_cast hhigh) hn

namespace Finite64

variable {x y : Finite64} {tie : Tie} {e : Int} {d : Magnitude}

theorem hasSignificand_units (x : Finite64) : HasSignificand x.units :=
  x.representable.hasSignificand

/-! ## One grid -/

/-- The point of a grid that is beside `x` and not above it. -/
def below (x : Finite64) (e : Int) : Magnitude := ⟨x.stepsBelow e, e⟩

/-- The point of a grid that is beside `x` and above it. -/
def above (x : Finite64) (e : Int) : Magnitude := ⟨x.stepsBelow e + 1, e⟩

/-- A number of steps of a grid, counted in units. -/
private theorem steps_eq (k : Nat) (e : Int) :
    (k : ℚ) * 10 ^ e * unitsPerOne =
      k * (unitsPerOne * tenTo e.toNat : ℕ) / (tenTo (-e).toNat : ℕ) := by
  rw [← tenTo_div_tenTo]
  push_cast
  ring

private theorem tenTo_pos (n : Nat) : 0 < tenTo n := by
  rw [tenTo_eq]
  positivity

private theorem step_pos (e : Int) : 0 < unitsPerOne * tenTo e.toNat :=
  Nat.mul_pos (by exact_mod_cast unitsPerOne_pos) (tenTo_pos _)

theorem value_below_le (x : Finite64) (e : Int) : (x.below e).value * unitsPerOne ≤ x.units := by
  have hten : (0 : ℚ) < (tenTo (-e).toNat : ℕ) := by exact_mod_cast tenTo_pos _
  rw [Magnitude.value, below, steps_eq, div_le_iff₀ hten]
  exact_mod_cast Nat.div_mul_le_self _ _

theorem lt_value_above (x : Finite64) (e : Int) : x.units < (x.above e).value * unitsPerOne := by
  have hten : (0 : ℚ) < (tenTo (-e).toNat : ℕ) := by exact_mod_cast tenTo_pos _
  rw [Magnitude.value, above, steps_eq, lt_div_iff₀ hten]
  exact_mod_cast (Nat.div_lt_iff_lt_mul (step_pos e)).1 (Nat.lt_succ_self _)

theorem units_below_le (x : Finite64) (e : Int) : (x.below e).units ≤ x.units :=
  Magnitude.units_le x.hasSignificand_units (x.value_below_le e)

theorem le_units_above (x : Finite64) (e : Int) : x.units ≤ (x.above e).units :=
  Magnitude.le_units x.hasSignificand_units (x.lt_value_above e).le

theorem value_above_le (x : Finite64) (e : Int) :
    (x.above e).value * unitsPerOne ≤ x.units + 10 ^ e * unitsPerOne := by
  have hstep : (x.above e).value = (x.below e).value + 10 ^ e := by
    simp only [Magnitude.value, above, below]
    push_cast
    ring
  rw [hstep, add_mul]
  exact add_le_add_left (x.value_below_le e) _

theorem onGrid?_eq (tie : Tie) (x : Finite64) (e : Int) :
    x.onGrid? tie e =
      if (x.below e).readsBack x then
        some (if (x.above e).readsBack x && x.takesUpper tie e then x.above e else x.below e)
      else if (x.above e).readsBack x then some (x.above e)
      else none := rfl

/-- What is found on a grid is on the grid and reads back. -/
theorem units_of_onGrid? (h : x.onGrid? tie e = some d) : d.exponent = e ∧ d.units = x.units := by
  rw [onGrid?_eq] at h
  split at h
  · rename_i hbelow
    rw [Magnitude.readsBack_iff] at hbelow
    split at h
    · rename_i habove
      rw [Bool.and_eq_true, Magnitude.readsBack_iff] at habove
      exact Option.some.inj h ▸ ⟨rfl, habove.1⟩
    · exact Option.some.inj h ▸ ⟨rfl, hbelow⟩
  · split at h
    · rename_i habove
      exact Option.some.inj h ▸ ⟨rfl, Magnitude.readsBack_iff.1 habove⟩
    · cases h

theorem onGrid?_ne_none_iff :
    x.onGrid? tie e ≠ none ↔ (x.below e).units = x.units ∨ (x.above e).units = x.units := by
  rw [onGrid?_eq, ← Magnitude.readsBack_iff, ← Magnitude.readsBack_iff]
  split
  · simp [*]
  · split <;> simp [*]

/-- **If any point of a grid reads back, one is found there**: one of those beside `x` lies between
that point and `x`. -/
theorem onGrid?_ne_none (h : d.units = x.units) : x.onGrid? tie d.exponent ≠ none := by
  rw [onGrid?_ne_none_iff]
  rcases Nat.lt_or_ge (x.stepsBelow d.exponent) d.coefficient with hlt | hge
  · have hle : (x.above d.exponent).value ≤ d.value := by
      rw [Magnitude.value, Magnitude.value, above]
      exact mul_le_mul_of_nonneg_right (by exact_mod_cast hlt) (by positivity)
    exact .inr (((Magnitude.units_mono hle).trans_eq h).antisymm (x.le_units_above d.exponent))
  · have hle : d.value ≤ (x.below d.exponent).value := by
      rw [Magnitude.value, Magnitude.value, below]
      exact mul_le_mul_of_nonneg_right (by exact_mod_cast hge) (by positivity)
    exact .inl ((x.units_below_le d.exponent).antisymm (h.symm.trans_le (Magnitude.units_mono hle)))

theorem onGrid?_congr (h : x.units = y.units) (tie : Tie) (e : Int) :
    x.onGrid? tie e = y.onGrid? tie e := by
  have hsteps : x.stepsBelow e = y.stepsBelow e := by rw [stepsBelow, stepsBelow, h]
  have hreads (d : Magnitude) : d.readsBack x = d.readsBack y := by
    rw [Bool.eq_iff_iff, Magnitude.readsBack_iff, Magnitude.readsBack_iff, h]
  have htakes : x.takesUpper tie e = y.takesUpper tie e := by
    simp only [takesUpper, hsteps, h]
  rw [onGrid?_eq, onGrid?_eq, below, below, above, above, hsteps, hreads, hreads, htakes]

/-! ## The first grid and the last one -/

private theorem log2_lt_of_lt_pow {n k : Nat} (hk : k ≠ 0) (h : n < 2 ^ k) : n.log2 < k := by
  by_cases hzero : n = 0
  · simpa [hzero] using Nat.pos_of_ne_zero hk
  · exact (Nat.log2_lt hzero).2 h

theorem log2_units_lt (x : Finite64) : x.units.log2 < 2098 :=
  log2_lt_of_lt_pow (by decide) (unitLimit_eq ▸ x.representable.1)

theorem gridTop_bounds (x : Finite64) :
    (10 : ℚ) ^ (x.gridTop - 2) * unitsPerOne ≤ 2 ^ (x.units.log2 + 2) ∧
      (2 : ℚ) ^ x.units.log2 ≤ 10 ^ (x.gridTop - 1) * unitsPerOne := by
  have hlog := x.log2_units_lt
  obtain ⟨hhigh, hlow⟩ := ten_zpow_bounds (n := x.units.log2 - 1073) (by omega)
  have htop : x.gridTop - 2 = (((x.units.log2 : Int) - 1073) * 30103).fdiv 100000 := by
    rw [gridTop]
    omega
  have hunits (n : ℤ) (k : ℕ) (h : n + 1074 = k) : (2 : ℚ) ^ n * unitsPerOne = 2 ^ k := by
    have hone : (unitsPerOne : ℚ) = 2 ^ (1074 : ℤ) := by
      rw [unitsPerOne_eq, Nat.cast_pow, Nat.cast_ofNat]
      exact (zpow_natCast 2 1074).symm
    rw [hone, ← zpow_add₀ two_ne_zero, h, zpow_natCast]
  rw [← htop] at hhigh hlow
  constructor
  · rw [← hunits ((x.units.log2 : ℤ) - 1073 + 1) (x.units.log2 + 2) (by omega)]
    exact mul_le_mul_of_nonneg_right hhigh unitsPerOne_pos.le
  · rw [← hunits ((x.units.log2 : ℤ) - 1073 - 1) x.units.log2 (by omega),
      show x.gridTop - 1 = x.gridTop - 2 + 1 by omega]
    exact mul_le_mul_of_nonneg_right hlow unitsPerOne_pos.le

/-- **No grid from the first one on is fine enough**: a point that reads back lies on one of the
grids below the first. -/
theorem exponent_lt_gridTop (hne : x.units ≠ 0) (h : d.units = x.units) :
    d.exponent < x.gridTop := by
  by_contra hnot
  have hcoefficient : (1 : ℚ) ≤ d.coefficient := by
    refine Nat.one_le_cast.2 (Nat.one_le_iff_ne_zero.2 fun hzero ↦ hne (h ▸ ?_))
    exact Magnitude.units_eq_zero (by simp [Magnitude.value, hzero])
  have hpower : (10 : ℚ) ^ x.gridTop ≤ d.value := by
    rw [Magnitude.value]
    exact (zpow_le_zpow_right₀ (by norm_num) (not_lt.1 hnot)).trans
      (le_mul_of_one_le_left (by positivity) hcoefficient)
  have hlarge : 2 ^ (x.units.log2 + 1) ≤ d.units := by
    refine Magnitude.le_units (hasSignificand_pow _) ?_
    rw [Nat.cast_pow, Nat.cast_ofNat]
    calc (2 : ℚ) ^ (x.units.log2 + 1) = 2 ^ x.units.log2 * 2 := pow_succ 2 _
      _ ≤ 10 ^ (x.gridTop - 1) * unitsPerOne * 10 :=
          mul_le_mul x.gridTop_bounds.2 (by norm_num) (by norm_num)
            (mul_nonneg (by positivity) unitsPerOne_pos.le)
      _ = 10 ^ x.gridTop * unitsPerOne := by
          rw [mul_right_comm, ← zpow_add_one₀ (by norm_num), sub_add_cancel]
      _ ≤ d.value * unitsPerOne := mul_le_mul_of_nonneg_right hpower unitsPerOne_pos.le
  exact (hlarge.trans_eq h).not_gt Nat.lt_log2_self

/-- **The last grid is fine enough**: its step is not above a quarter of the distance between the
doubles at `x`. -/
theorem units_above_last (hne : x.units ≠ 0) : (x.above (x.gridTop - 23)).units = x.units := by
  refine (Magnitude.units_le_of_close x.hasSignificand_units hne ?_).antisymm (x.le_units_above _)
  have hstep : (10 : ℚ) ^ (x.gridTop - 23) * unitsPerOne * 4 ≤ spacing x.units := by
    have hpower : (10 : ℚ) ^ (x.gridTop - 23) = 10 ^ (x.gridTop - 2) / 10 ^ 21 := by
      rw [← zpow_natCast, ← zpow_sub₀ (by norm_num)]
      congr 1
      omega
    have hspacing : (2 : ℚ) ^ (x.units.log2 + 4) ≤ spacing x.units * 10 ^ 21 := by
      rw [spacing_eq, Nat.cast_pow, Nat.cast_ofNat]
      calc (2 : ℚ) ^ (x.units.log2 + 4) ≤ 2 ^ (x.units.log2 - 52 + 56) :=
            pow_le_pow_right₀ one_le_two (by omega)
        _ = 2 ^ (x.units.log2 - 52) * 2 ^ 56 := pow_add 2 _ 56
        _ ≤ 2 ^ (x.units.log2 - 52) * 10 ^ 21 :=
            mul_le_mul_of_nonneg_left (by norm_num) (by positivity)
    rw [hpower, div_mul_eq_mul_div, div_mul_eq_mul_div, div_le_iff₀ (by positivity)]
    refine le_trans ?_ hspacing
    rw [show x.units.log2 + 4 = x.units.log2 + 2 + 2 by omega, pow_add]
    exact mul_le_mul x.gridTop_bounds.1 (by norm_num) (by norm_num) (by positivity)
  have habove := x.value_above_le (x.gridTop - 23)
  linarith

/-- **The search finds something**, and on the grids before it there is nothing to find. -/
theorem exists_grid (tie : Tie) (hne : x.units ≠ 0) :
    ∃ k : Nat, x.onGrid? tie (x.gridTop - k) = some (x.shortest tie) ∧
      ∀ j < k, x.onGrid? tie (x.gridTop - (j : Nat)) = none := by
  cases hfind : (List.range 24).findSome? fun (k : Nat) ↦ x.onGrid? tie (x.gridTop - k) with
  | none =>
    have hlast : x.onGrid? tie (x.gridTop - (23 : Nat)) = none :=
      List.findSome?_eq_none_iff.1 hfind 23 (by decide)
    exact absurd hlast (onGrid?_ne_none_iff.2 (.inr (units_above_last hne)))
  | some d =>
    obtain ⟨before, k, after, hrange, hsome, hnone⟩ := List.findSome?_eq_some_iff.1 hfind
    refine ⟨k, ?_, fun j hj ↦ ?_⟩
    · rw [hsome, shortest, if_neg hne, hfind, Option.getD_some]
    · have hmem : j ∈ before ++ k :: after := by
        have hk : k ∈ List.range 24 := hrange ▸ by simp
        rw [← hrange, List.mem_range]
        exact hj.trans (List.mem_range.1 hk)
      have hsorted : (before ++ k :: after).Pairwise (· < ·) := hrange ▸ List.pairwise_lt_range
      rw [List.pairwise_append, List.pairwise_cons] at hsorted
      rcases List.mem_append.1 hmem with hbefore | hafter
      · exact hnone j hbefore
      · rcases List.mem_cons.1 hafter with rfl | htail
        · exact absurd hj (lt_irrefl j)
        · exact absurd hj (hsorted.2.1.1 j htail).not_gt

/-! ## The shortest decimal -/

/-- **The shortest decimal reads back.** -/
theorem units_shortest (tie : Tie) (x : Finite64) : (x.shortest tie).units = x.units := by
  by_cases hne : x.units = 0
  · rw [shortest, if_pos hne, hne]
    exact Magnitude.units_eq_zero (by simp [Magnitude.value])
  · obtain ⟨_, hsome, _⟩ := exists_grid tie hne
    exact (units_of_onGrid? hsome).2

/-- **No coarser decimal reads back.** -/
theorem le_exponent_shortest (tie : Tie) (hne : x.units ≠ 0) (h : d.units = x.units) :
    d.exponent ≤ (x.shortest tie).exponent := by
  obtain ⟨k, hsome, hnone⟩ := exists_grid tie hne
  rw [(units_of_onGrid? hsome).1]
  by_contra hlt
  have htop := exponent_lt_gridTop hne h
  have hgrid := hnone (x.gridTop - d.exponent).toNat (by omega)
  rw [Int.toNat_of_nonneg (by omega), sub_sub_cancel] at hgrid
  exact onGrid?_ne_none h hgrid

/-- Only the magnitude matters. -/
theorem shortest_congr (h : x.units = y.units) (tie : Tie) : x.shortest tie = y.shortest tie := by
  rw [shortest, shortest, gridTop, gridTop, h]
  simp only [onGrid?_congr h]

end Finite64

end ReactiveForm
