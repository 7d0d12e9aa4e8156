import ReactiveForm.Numeric.Numeral
import ReactiveForm.Text.Word
import ReactiveForm.Value.Reader

/-!
# Addresses of hosts

A host may be given by a number instead of a name.  The short form has up to four numbers with
points between them, each in base ten, eight or sixteen; the last one takes the place of those that
are missing.  The long form has eight groups of up to four digits in base sixteen with colons
between them; two colons in a row stand for groups of zeros, and the last two groups may be in the
short form.
-/

set_option autoImplicit false
namespace ReactiveForm
namespace Address

/-! ## The short form -/

/-- The number that a part of an address writes. -/
def number? (cs : List Char) : Option Nat :=
  match cs with
  | '0' :: 'x' :: ds => hexNumber? ds
  | '0' :: d :: ds =>
    if (d :: ds).all fun c ↦ '0' ≤ c && c ≤ '7' then
      some ((d :: ds).foldl (fun n c ↦ 8 * n + (c.toNat - '0'.toNat)) 0)
    else none
  | ds => if !ds.isEmpty && ds.all Char.isDigit then some (natOfDigits ds) else none

/-- Some labels without an empty one at the end. -/
def dropLastEmpty (labels : List (List Char)) : List (List Char) :=
  if labels.getLast? == some [] then labels.dropLast else labels

/-- Whether some labels must be an address, because the last one is a number. -/
def endsInNumber (labels : List (List Char)) : Bool :=
  match (dropLastEmpty labels).getLast? with
  | some last => (!last.isEmpty && last.all Char.isDigit) || (number? last).isSome
  | none => false

/-- **Whether some labels are an address.** -/
def isShort (labels : List (List Char)) : Bool :=
  match (dropLastEmpty labels).mapM number? with
  | none => false
  | some numbers =>
    numbers.length ≤ 4 && numbers.dropLast.all (· < 256) &&
      numbers.getLast?.all (· < 1 <<< (8 * (5 - numbers.length)))

/-! ## The long form -/

/-- Whether a text is a group. -/
def isGroup (cs : List Char) : Bool :=
  !cs.isEmpty && cs.length ≤ 4 && cs.all fun c ↦ (hexValue? c).isSome

/-- Whether a text is a part of a short form at the end of a long one. -/
def isPlainByte (cs : List Char) : Bool :=
  !cs.isEmpty && cs.all Char.isDigit && natOfDigits cs < 256 &&
    (cs.length == 1 || cs.head? != some '0')

/-- Whether a text is a short form at the end of a long one. -/
def isTail (cs : List Char) : Bool :=
  let parts := partsAt '.' cs
  parts.length == 4 && parts.all isPlainByte

/-- The number of groups that a text writes, of which the last two may be in the short form. -/
def countGroups? (allowsTail : Bool) (cs : List Char) : Option Nat :=
  if cs.isEmpty then some 0
  else
    let parts := partsAt ':' cs
    match parts.getLast? with
    | none => none
    | some last =>
      if !parts.dropLast.all isGroup then none
      else if isGroup last then some parts.length
      else if allowsTail && isTail last then some (parts.length + 1)
      else none

/-- **Whether a text is an address in the long form.** -/
def isLong (cs : List Char) : Bool :=
  match splitAtWord? [':', ':'] cs with
  | none => countGroups? true cs == some 8
  | some (front, back) =>
    match countGroups? false front, countGroups? true back with
    | some n, some m => n + m < 8
    | _, _ => false

end Address
end ReactiveForm
