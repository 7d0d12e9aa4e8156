import ReactiveForm.Numeric.Decimal

/-!
# Reading numbers

Number texts share one shape: whole digits, digits after a point, an exponent.  `Numeral` holds the
digits as they stand, `Numeral.toBinary` is the double they denote.  How much of the shape a text
may leave out differs from format to format; this file has the liberal reader used wherever text is
turned into a number (`Binary64.ofText?`), and the pieces from which the stricter readers of data
and expressions are made.
-/

set_option autoImplicit false
namespace ReactiveForm

/-! ## Digits -/

/-- The number written by a list of decimal digits. -/
def natOfDigits (ds : List Char) : Nat :=
  ds.foldl (fun n c ↦ 10 * n + (c.toNat - '0'.toNat)) 0

/-- The digits at the front of a text, and what follows them. -/
def spanDigits (cs : List Char) : List Char × List Char :=
  (cs.takeWhile Char.isDigit, cs.dropWhile Char.isDigit)

/-- A number as it is written: digits before and after the point, and the exponent. -/
structure Numeral where
  whole : List Char
  fraction : List Char
  exponent : Int

namespace Numeral

/-- The decimal a numeral writes. -/
def magnitude (n : Numeral) : Magnitude :=
  ⟨natOfDigits (n.whole ++ n.fraction), n.exponent - n.fraction.length⟩

/-- The double nearest to what a numeral writes. -/
def toBinary (negative : Bool) (n : Numeral) : Binary64 := n.magnitude.toBinary negative

/-- The exponent at the front of a text: its value, and what follows it.  A mark without digits
behind it is no exponent. -/
def exponent? : List Char → Option (Int × List Char)
  | [] => none
  | mark :: cs =>
    if mark = 'e' || mark = 'E' then
      match cs with
      | '-' :: ds => if (spanDigits ds).1.isEmpty then none
          else some (-(natOfDigits (spanDigits ds).1), (spanDigits ds).2)
      | '+' :: ds => if (spanDigits ds).1.isEmpty then none
          else some (natOfDigits (spanDigits ds).1, (spanDigits ds).2)
      | ds => if (spanDigits ds).1.isEmpty then none
          else some (natOfDigits (spanDigits ds).1, (spanDigits ds).2)
    else none

/-- **The longest numeral at the front of a text**, and what follows it.  Any part may be missing;
a point is taken with or without digits around it. -/
def scan (cs : List Char) : Numeral × List Char :=
  let (whole, rest) := spanDigits cs
  let (fraction, rest) := match rest with
    | '.' :: behind => spanDigits behind
    | rest => ([], rest)
  match exponent? rest with
  | some (exponent, rest) => (⟨whole, fraction, exponent⟩, rest)
  | none => (⟨whole, fraction, 0⟩, rest)

end Numeral

/-! ## Whole texts -/

/-- Whether a text is the given lower-case word, whatever its case. -/
private def isWord (word : String) (cs : List Char) : Bool := cs.map Char.toLower == word.toList

private def unsignedOfText? (negative : Bool) (cs : List Char) : Option Binary64 :=
  if isWord "inf" cs || isWord "infinity" cs then some (.infinite negative)
  else if isWord "nan" cs then some .nan
  else
    let (numeral, rest) := Numeral.scan cs
    if rest.isEmpty && !(numeral.whole.isEmpty && numeral.fraction.isEmpty) then
      some (numeral.toBinary negative)
    else none

/-- **The number a text writes**, with an optional sign, at least one digit on either side of an
optional point, and an optional exponent; or one of the words for infinity and not-a-number. -/
def Binary64.ofText? (cs : List Char) : Option Binary64 :=
  match cs with
  | '-' :: rest => unsignedOfText? true rest
  | '+' :: rest => unsignedOfText? false rest
  | rest => unsignedOfText? false rest

/-- A text that starts with a digit or a point and is one numeral, with digits, is a number. -/
theorem Binary64.isSome_ofText? {c : Char} {cs : List Char} (hc : c.isDigit = true ∨ c = '.')
    (hrest : (Numeral.scan (c :: cs)).2 = [])
    (hdigits : (Numeral.scan (c :: cs)).1.whole ≠ [] ∨ (Numeral.scan (c :: cs)).1.fraction ≠ []) :
    (Binary64.ofText? (c :: cs)).isSome = true := by
  unfold ofText?
  split
  · rename_i heq
    obtain ⟨rfl, -⟩ := List.cons.inj heq
    exact absurd hc (by decide)
  · rename_i heq
    obtain ⟨rfl, -⟩ := List.cons.inj heq
    exact absurd hc (by decide)
  · unfold unsignedOfText?
    split
    · rfl
    · split
      · rfl
      · rcases hdigits with hdigits | hdigits <;> simp [hrest, hdigits]

/-- Whether an integer fits 64 bits, with a sign or without one. -/
def fitsWord (n : Int) : Bool := decide (-0x8000000000000000 ≤ n ∧ n < 0x10000000000000000)

/-- The natural number a text of digits writes, below `2 ^ 64`.  A plus sign and leading zeros are
allowed. -/
def indexOfText? (s : String) : Option Nat :=
  let ds := match s.toList with
    | '+' :: rest => rest
    | cs => cs
  if !ds.isEmpty && ds.all Char.isDigit then
    if natOfDigits ds < UInt64.size then some (natOfDigits ds) else none
  else none

end ReactiveForm
