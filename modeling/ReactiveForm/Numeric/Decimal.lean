import ReactiveForm.Numeric.Binary64

/-!
# Decimals

Two jobs are done in decimal and not in binary.  Numbers are *compared* as the decimals that write
them, so that an integer beyond the exact range of doubles is never confused with a neighbour; and
a computed number is *rounded* to a number of places from its decimal digits, so that `1.005` goes
to `1.01` although the double nearest to it lies below the half.

A `Magnitude` is `coefficient * 10 ^ exponent` without a sign, a `Decimal` one with a sign.  Both
are exact.  `Magnitude.toBinary` is the only way back to doubles, and it rounds once.
-/

set_option autoImplicit false
namespace ReactiveForm

/-- A power of ten. -/
def tenTo (n : Nat) : Nat := Nat.pow 10 n

/-! ## Unsigned decimals -/

/-- The decimal `coefficient * 10 ^ exponent`. -/
structure Magnitude where
  coefficient : Nat
  exponent : Int
deriving DecidableEq, Inhabited

namespace Magnitude

/-- The value in units, as the numerator of a quotient over `denominator`. -/
def numerator (d : Magnitude) : Nat := d.coefficient * tenTo d.exponent.toNat * unitsPerOne

/-- The denominator that belongs to `numerator`. -/
def denominator (d : Magnitude) : Nat := tenTo (-d.exponent).toNat

/-- **The double nearest to a decimal.**  A decimal far outside the range is settled by its size
alone, so that no power is computed which the text of a number could make as large as it likes. -/
def toBinary (negative : Bool) (d : Magnitude) : Binary64 :=
  if d.coefficient = 0 then .zero negative
  else if 400 < d.exponent then .infinite negative
  else if d.exponent + d.coefficient.log2 < -400 then .zero negative
  else .ofRatio negative d.numerator d.denominator

/-- Whether the decimal, read as a double, is the given magnitude. -/
def readsBack (d : Magnitude) (x : Finite64) : Bool := nearest d.numerator d.denominator == x.units

end Magnitude

/-! ## Signed decimals -/

/-- The decimal `coefficient * 10 ^ exponent`. -/
structure Decimal where
  coefficient : Int
  exponent : Int
deriving DecidableEq, Inhabited

namespace Decimal

/-- An integer as a decimal. -/
def ofInt (n : Int) : Decimal := ⟨n, 0⟩

/-- A magnitude with a sign. -/
def ofMagnitude (negative : Bool) (d : Magnitude) : Decimal :=
  ⟨if negative then -d.coefficient else d.coefficient, d.exponent⟩

/-- The coefficient over the power `10 ^ exponent`, for an exponent that is not above the
decimal's own. -/
def coefficientAt (d : Decimal) (exponent : Int) : Int :=
  d.coefficient * tenTo (d.exponent - exponent).toNat

/-- **The order of decimals by value**, whatever exponents they are written with. -/
def compare (a b : Decimal) : Ordering :=
  let exponent := min a.exponent b.exponent
  Ord.compare (a.coefficientAt exponent) (b.coefficientAt exponent)

end Decimal

/-! ## Rounding to places -/

/-- Which of the two neighbours a decimal between them is rounded to. -/
inductive Rounding where
  /-- The nearer one, and of two equally near ones the one away from zero. -/
  | nearest
  /-- The upper one. -/
  | ceiling
  /-- The lower one. -/
  | floor
deriving DecidableEq, Inhabited

namespace Decimal

/-- The quotient `n / den` rounded to an integer. -/
def roundQuotient (mode : Rounding) (n : Int) (den : Nat) : Int :=
  match mode with
  | .floor => n.fdiv den
  | .ceiling => -(-n).fdiv den
  | .nearest =>
    let magnitude : Int := ((2 * n.natAbs + den) / (2 * den) : Nat)
    if n < 0 then -magnitude else magnitude

/-- **The decimal rounded to `places` digits after the point.**  One that has no more is kept. -/
def roundTo (mode : Rounding) (places : Nat) (d : Decimal) : Decimal :=
  if -(places : Int) ≤ d.exponent then d
  else ⟨roundQuotient mode d.coefficient (tenTo (-places - d.exponent).toNat), -places⟩

/-- The double nearest to a decimal; a zero has no sign. -/
def toBinary (d : Decimal) : Binary64 :=
  Magnitude.toBinary (decide (d.coefficient < 0)) ⟨d.coefficient.natAbs, d.exponent⟩

end Decimal

end ReactiveForm
