import ReactiveForm.Numeric.Decimal

/-!
# The fewest digits that read back

A double is written with the fewest decimal digits that still read back as the same double.  The
search goes over the grids of powers of ten from coarse to fine.  On each grid only the two points
beside the value can be the nearest ones, and the first grid that has a point reading back wins; of
two points on it the nearer one is taken.

`Tie` settles the rest: when two points of the same length are equally near, writers disagree, and
both conventions are in use here.
-/

set_option autoImplicit false
namespace ReactiveForm

/-- Which of two equally near decimals of the same length is chosen. -/
inductive Tie where
  /-- The one whose last digit is even. -/
  | toEven
  /-- The greater one. -/
  | upward
deriving DecidableEq

namespace Finite64

/-- The greatest multiple of `10 ^ exponent` that is not above the magnitude of `x`, counted in
steps of the grid. -/
def stepsBelow (x : Finite64) (exponent : Int) : Nat :=
  x.units * tenTo (-exponent).toNat / (unitsPerOne * tenTo exponent.toNat)

/-- Whether the upper of the two points beside `x` is the one to take, both reading back. -/
def takesUpper (tie : Tie) (x : Finite64) (exponent : Int) : Bool :=
  let steps := x.stepsBelow exponent
  let twice := 2 * x.units * tenTo (-exponent).toNat
  match compare twice ((2 * steps + 1) * (unitsPerOne * tenTo exponent.toNat)), tie with
  | .lt, _ => false
  | .gt, _ => true
  | .eq, .upward => true
  | .eq, .toEven => steps % 2 == 1

/-- The point of the grid `10 ^ exponent` beside `x` that reads back as `x`, if there is one. -/
def onGrid? (tie : Tie) (x : Finite64) (exponent : Int) : Option Magnitude :=
  let lower : Magnitude := ⟨x.stepsBelow exponent, exponent⟩
  let upper : Magnitude := ⟨x.stepsBelow exponent + 1, exponent⟩
  if lower.readsBack x then
    some (if upper.readsBack x && x.takesUpper tie exponent then upper else lower)
  else if upper.readsBack x then some upper
  else none

/-- An exponent whose power of ten is above the magnitude of `x`. -/
def gridTop (x : Finite64) : Int := (((x.units.log2 : Int) - 1073) * 30103).fdiv 100000 + 2

/-- **The shortest decimal that reads back as `x`.**  Two dozen grids are more than the seventeen
digits a double may need; after them stands the exact value, which reads back as well. -/
def shortest (tie : Tie) (x : Finite64) : Magnitude :=
  if x.units = 0 then ⟨0, 0⟩
  else
    ((List.range 24).findSome? fun (k : Nat) ↦ x.onGrid? tie (x.gridTop - k)).getD
      ⟨x.units * (tenTo 1074 / unitsPerOne), -1074⟩

/-- The shortest decimal, with the sign. -/
def toDecimal (tie : Tie) (x : Finite64) : Decimal := .ofMagnitude x.negative (x.shortest tie)

end Finite64

end ReactiveForm
