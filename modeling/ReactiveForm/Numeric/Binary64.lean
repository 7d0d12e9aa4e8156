/-!
# Double-precision numbers, computed exactly

Every number a form computes with is a 64-bit binary floating-point number.  This file gives them
a representation in which arithmetic is plain arithmetic of naturals: the least positive double is
`2 ^ -1074`, and every finite double is a whole number of these *units*.  So a finite double is a
sign and a natural number of units (`Finite64`), addition is addition of integers, comparison is
comparison of integers, and the only thing an operation has to do besides is to round its exact
result once.

## What is here

* `Representable n` — `n` units are a double: a significand of at most 53 bits, shifted.
* `nearest num den` — the representable number of units closest to the quotient `num / den`, an
  exact tie going to the even significand; `exists_shift_nearest` says that it has the right form.
* `Binary64` — not-a-number, the two infinities, and the finite doubles, with the arithmetic that
  expressions use.  Each operation computes its exact result as a quotient of naturals and hands
  it to `Binary64.ofRatio`, which rounds it.
* `Binary64.power` — the one operation that has no exact result to round.  It goes through the
  machine's own power function, by way of the interchange bits.

Nothing here is fast, a number near one being some thousand bits of units.  It is the reference
that laws about comparison, rounding and decimal text can be proved of.
-/

set_option autoImplicit false
namespace ReactiveForm

/-! ## Units -/

/-- The number of units in one. -/
def unitsPerOne : Nat := 1 <<< 1074

/-- The first power of two, counted in units, beyond the finite range. -/
def unitLimit : Nat := 1 <<< 2098

/-- **A number of units that is a double**: it is below the limit and has a significand of at most
53 bits. -/
def Representable (n : Nat) : Prop :=
  n < unitLimit ∧ ∃ significand shift : Nat, significand < 1 <<< 53 ∧ n = significand <<< shift

/-- The quotient `num / den` rounded to a natural number, an exact half going to the even one. -/
def roundHalfEven (num den : Nat) : Nat :=
  match compare (2 * (num % den)) den with
  | .lt => num / den
  | .eq => num / den + num / den % 2
  | .gt => num / den + 1

/-- The distance between neighbouring doubles at `n` units. -/
def spacing (n : Nat) : Nat := 1 <<< (n.log2 - 52)

/-- **The representable number of units nearest to `num / den`**, before the limit is looked at. -/
def nearest (num den : Nat) : Nat :=
  roundHalfEven num (spacing (num / den) * den) * spacing (num / den)

theorem roundHalfEven_le (num den : Nat) : roundHalfEven num den ≤ num / den + 1 := by
  unfold roundHalfEven
  split <;> omega

private theorem div_spacing_lt (n : Nat) : n / spacing n < 1 <<< 53 := by
  rw [spacing, Nat.one_shiftLeft, Nat.one_shiftLeft,
    Nat.div_lt_iff_lt_mul (Nat.two_pow_pos _), ← Nat.pow_add]
  refine Nat.lt_of_lt_of_le (Nat.lt_log2_self (n := n)) (Nat.pow_le_pow_right (by decide) ?_)
  omega

/-- What `nearest` returns is a significand of at most 53 bits, shifted. -/
theorem exists_shift_nearest (num den : Nat) :
    ∃ significand shift : Nat,
      significand < 1 <<< 53 ∧ nearest num den = significand <<< shift := by
  have hle : roundHalfEven num (spacing (num / den) * den) ≤ 1 <<< 53 := by
    refine Nat.le_trans (roundHalfEven_le _ _) ?_
    have h := div_spacing_lt (num / den)
    rw [Nat.div_div_eq_div_mul, Nat.mul_comm] at h
    exact h
  rcases Nat.lt_or_eq_of_le hle with h | h
  · exact ⟨_, (num / den).log2 - 52, h, by
      rw [nearest, spacing, Nat.one_shiftLeft, Nat.shiftLeft_eq]⟩
  · refine ⟨1, 53 + ((num / den).log2 - 52), by decide, ?_⟩
    rw [nearest, h, spacing, Nat.one_shiftLeft, Nat.one_shiftLeft, Nat.one_shiftLeft, ← Nat.pow_add]

theorem representable_nearest {num den : Nat} (h : nearest num den < unitLimit) :
    Representable (nearest num den) :=
  ⟨h, exists_shift_nearest num den⟩

theorem representable_zero : Representable 0 := by
  refine ⟨?_, 0, 0, by decide, by decide⟩
  simp only [unitLimit, Nat.one_shiftLeft, Nat.two_pow_pos]

/-! ## Finite doubles -/

/-- **A finite double**: a sign and a representable number of units.  Zero has both signs. -/
structure Finite64 where
  negative : Bool
  units : Nat
  representable : Representable units
deriving DecidableEq

namespace Finite64

/-- The zero without a sign. -/
def zero : Finite64 := ⟨false, 0, representable_zero⟩

instance : Inhabited Finite64 := ⟨zero⟩

/-- The value as an integer number of units; both zeros are zero. -/
def signed (x : Finite64) : Int := if x.negative then -x.units else x.units

/-- The value with its sign turned round. -/
def neg (x : Finite64) : Finite64 := { x with negative := !x.negative }

/-- Equality of values: the zeros are equal. -/
def same (x y : Finite64) : Bool := x.signed == y.signed

/-- Whether the value is a whole number. -/
def isWhole (x : Finite64) : Bool := x.units % unitsPerOne == 0

end Finite64

/-! ## All doubles -/

/-- **A double-precision number.** -/
inductive Binary64 where
  | nan
  | infinite (negative : Bool)
  | finite (value : Finite64)
deriving DecidableEq

namespace Binary64

instance : Inhabited Binary64 := ⟨.finite .zero⟩

/-- The double nearest to `num / den`, with the given sign; beyond the range it is infinite. -/
def ofRatio (negative : Bool) (num den : Nat) : Binary64 :=
  if h : nearest num den < unitLimit then
    .finite ⟨negative, nearest num den, representable_nearest h⟩
  else
    .infinite negative

/-- A zero of the given sign. -/
def zero (negative : Bool) : Binary64 := .finite ⟨negative, 0, representable_zero⟩

/-- The double nearest to a number of units. -/
def ofUnits (negative : Bool) (n : Nat) : Binary64 := ofRatio negative n 1

/-- The double nearest to an integer. -/
def ofInt (n : Int) : Binary64 := ofUnits (decide (n < 0)) (n.natAbs * unitsPerOne)

/-- The double nearest to a natural number. -/
def ofNat (n : Nat) : Binary64 := ofInt n

/-- Whether the number is finite. -/
def isFinite : Binary64 → Bool
  | .finite _ => true
  | _ => false

/-- Whether this is not a number. -/
def isNaN : Binary64 → Bool
  | .nan => true
  | _ => false

/-- The finite value, if there is one. -/
def finite? : Binary64 → Option Finite64
  | .finite x => some x
  | _ => none

/-! ## Comparison -/

/-- **The order of doubles.**  Not-a-number is unordered, also against itself. -/
def compare? : Binary64 → Binary64 → Option Ordering
  | .nan, _ | _, .nan => none
  | .infinite s, .infinite t => some (compare t s)
  | .infinite s, .finite _ => some (if s then .lt else .gt)
  | .finite _, .infinite t => some (if t then .gt else .lt)
  | .finite x, .finite y => some (compare x.signed y.signed)

/-- Equality of values: the zeros are equal and not-a-number equals nothing. -/
def same (x y : Binary64) : Bool := compare? x y == some .eq

/-- Whether `x` is below `y`. -/
def lt (x y : Binary64) : Bool := compare? x y == some .lt

/-- Whether `x` is above `y`. -/
def gt (x y : Binary64) : Bool := compare? x y == some .gt

/-! ## Arithmetic -/

/-- The number with its sign turned round. -/
def neg : Binary64 → Binary64
  | .nan => .nan
  | .infinite s => .infinite (!s)
  | .finite x => .finite x.neg

/-- The number without its sign. -/
def abs : Binary64 → Binary64
  | .nan => .nan
  | .infinite _ => .infinite false
  | .finite x => .finite { x with negative := false }

/-- The sum.  An exact zero sum is negative only when both terms are. -/
def add : Binary64 → Binary64 → Binary64
  | .nan, _ | _, .nan => .nan
  | .infinite s, .infinite t => if s = t then .infinite s else .nan
  | .infinite s, .finite _ => .infinite s
  | .finite _, .infinite t => .infinite t
  | .finite x, .finite y =>
    let sum := x.signed + y.signed
    if sum = 0 then zero (x.negative && y.negative)
    else ofUnits (decide (sum < 0)) sum.natAbs

/-- The difference. -/
def sub (x y : Binary64) : Binary64 := x.add y.neg

/-- The product. -/
def mul : Binary64 → Binary64 → Binary64
  | .nan, _ | _, .nan => .nan
  | .infinite s, .infinite t => .infinite (s != t)
  | .infinite s, .finite y => if y.units = 0 then .nan else .infinite (s != y.negative)
  | .finite x, .infinite t => if x.units = 0 then .nan else .infinite (x.negative != t)
  | .finite x, .finite y => ofRatio (x.negative != y.negative) (x.units * y.units) unitsPerOne

/-- The quotient.  Dividing by zero gives an infinity, and not-a-number for zero by zero. -/
def div : Binary64 → Binary64 → Binary64
  | .nan, _ | _, .nan => .nan
  | .infinite _, .infinite _ => .nan
  | .infinite s, .finite y => .infinite (s != y.negative)
  | .finite x, .infinite t => zero (x.negative != t)
  | .finite x, .finite y =>
    if y.units = 0 then
      if x.units = 0 then .nan else .infinite (x.negative != y.negative)
    else ofRatio (x.negative != y.negative) (x.units * unitsPerOne) y.units

/-- The remainder of the quotient cut off toward zero; it has the sign of the dividend. -/
def rem : Binary64 → Binary64 → Binary64
  | .nan, _ | _, .nan => .nan
  | .infinite _, _ => .nan
  | .finite x, .infinite _ => .finite x
  | .finite x, .finite y =>
    if y.units = 0 then .nan else ofUnits x.negative (x.units % y.units)

/-! ## Whole numbers -/

/-- The value rounded to a whole number of ones, upward in magnitude when `away` says so for a
value that is not whole. -/
private def toWhole (away : Finite64 → Bool) : Binary64 → Binary64
  | .finite x =>
    let whole := x.units / unitsPerOne
    ofUnits x.negative ((if away x && !x.isWhole then whole + 1 else whole) * unitsPerOne)
  | x => x

/-- The greatest whole number that is not above. -/
def floor : Binary64 → Binary64 := toWhole fun x ↦ x.negative

/-- The least whole number that is not below. -/
def ceil : Binary64 → Binary64 := toWhole fun x ↦ !x.negative

/-- The whole part, toward zero. -/
def trunc : Binary64 → Binary64 := toWhole fun _ ↦ false

/-- The nearest whole number, a half going up: the floor of the number plus one half. -/
def round (x : Binary64) : Binary64 := (x.add (ofRatio false unitsPerOne 2)).floor

/-- One with the sign of the number; zeros and not-a-number stay. -/
def sign : Binary64 → Binary64
  | .nan => .nan
  | .infinite s => ofInt (if s then -1 else 1)
  | .finite x => if x.units = 0 then .finite x else ofInt (if x.negative then -1 else 1)

/-- The greater of two numbers; the first of two equal ones. -/
def max (x y : Binary64) : Binary64 := if x.lt y then y else x

/-- The lesser of two numbers; the first of two equal ones. -/
def min (x y : Binary64) : Binary64 := if x.gt y then y else x

/-! ## Roots and powers -/

/-- The greatest natural number whose square is not above `n`. -/
def rootFloor (n : Nat) : Nat :=
  if h : n = 0 then 0
  else
    let half := 2 * rootFloor (n / 4)
    if (half + 1) * (half + 1) ≤ n then half + 1 else half
termination_by n
decreasing_by omega

/-- The square root.  A root that is not exact is told from its floor by one extra half, which no
rounding of so long a number can confuse with a tie. -/
def sqrt : Binary64 → Binary64
  | .nan => .nan
  | .infinite s => if s then .nan else .infinite false
  | .finite x =>
    if x.units = 0 then .finite x
    else if x.negative then .nan
    else
      let square := x.units * unitsPerOne
      let root := rootFloor square
      ofRatio false (2 * root + (if root * root = square then 0 else 1)) 2

/-- The interchange bits: the sign, then the rank of the magnitude among all magnitudes. -/
def toBits : Binary64 → UInt64
  | .nan => 0x7FF8000000000000
  | .infinite s => if s then 0xFFF0000000000000 else 0x7FF0000000000000
  | .finite x =>
    let shift := x.units.log2 - 52
    let rank := shift <<< 52 + x.units >>> shift
    (rank + if x.negative then 1 <<< 63 else 0).toUInt64

/-- The number with the given interchange bits. -/
def ofBits (bits : UInt64) : Binary64 :=
  let n := bits.toNat
  let negative := decide (1 <<< 63 ≤ n)
  let exponent := (n >>> 52) % (1 <<< 11)
  let fraction := n % (1 <<< 52)
  if exponent = 2047 then
    if fraction = 0 then .infinite negative else .nan
  else if exponent = 0 then ofUnits negative fraction
  else ofUnits negative ((1 <<< 52 + fraction) <<< (exponent - 1))

/-- The power, as the machine computes it. -/
def power (x y : Binary64) : Binary64 :=
  ofBits (Float.pow (Float.ofBits x.toBits) (Float.ofBits y.toBits)).toBits

end Binary64

end ReactiveForm
