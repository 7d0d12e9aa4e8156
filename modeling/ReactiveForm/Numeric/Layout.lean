import ReactiveForm.Numeric.Shortest

/-!
# Writing numbers

`Finite64.shortest` says which digits a double is written with; this file lays them out.  What a
format decides is one record, `Layout`: from which and up to which size digits are written
positionally, whether a whole number keeps a point, and how a tie between digits goes.
-/

set_option autoImplicit false
namespace ReactiveForm

/-- **The decisions of a number format.** -/
structure Layout where
  /-- Whether a number is written positionally, given the exponent of its leading digit. -/
  positional : Int → Bool
  /-- Whether a whole number written positionally ends in a point and a zero. -/
  keepsPoint : Bool
  /-- How a tie between two equally near decimals goes. -/
  tie : Tie

namespace Magnitude

/-- The digits of the coefficient. -/
def digits (d : Magnitude) : List Char := Nat.toDigits 10 d.coefficient

/-- The exponent of the leading digit. -/
def leading (d : Magnitude) : Int := d.exponent + d.digits.length - 1

/-- The digits with the point at its place, after, inside or before them. -/
def positionalText (keepsPoint : Bool) (d : Magnitude) : List Char :=
  let behind := (-d.exponent).toNat
  if 0 ≤ d.exponent then
    d.digits ++ List.replicate d.exponent.toNat '0' ++ (if keepsPoint then ['.', '0'] else [])
  else if behind < d.digits.length then
    d.digits.take (d.digits.length - behind) ++ '.' :: d.digits.drop (d.digits.length - behind)
  else
    '0' :: '.' :: (List.replicate (behind - d.digits.length) '0' ++ d.digits)

/-- The digits with a point after the first one, and the exponent with its sign. -/
def exponentText (d : Magnitude) : List Char :=
  let fraction := d.digits.drop 1
  d.digits.take 1 ++ (if fraction.isEmpty then [] else '.' :: fraction) ++ 'e' ::
    (if d.leading < 0 then '-' else '+') :: Nat.toDigits 10 d.leading.natAbs

end Magnitude

/-- **The text of a finite double.** -/
def Finite64.text (layout : Layout) (x : Finite64) : List Char :=
  let d := x.shortest layout.tie
  let body := if layout.positional d.leading then d.positionalText layout.keepsPoint
    else d.exponentText
  if x.negative then '-' :: body else body

end ReactiveForm
