/-!
# Sets of characters

A set of characters is a list of ranges of code points, with both ends in the set, in ascending
order and with gaps between them.  `CharSet.ofRanges` puts any ranges into that form.

The tables of character properties list lengths of stretches instead, one after the other from the
first code point; reading them is here as well.
-/

set_option autoImplicit false
namespace ReactiveForm

/-- **A set of characters**: ranges of code points, ascending and apart. -/
abbrev CharSet := List (Nat × Nat)

/-- The greatest code point. -/
def lastCodePoint : Nat := 0x10FFFF

namespace CharSet

/-- Whether a code point is in a set. -/
def has (s : CharSet) (n : Nat) : Bool := s.any fun r ↦ r.1 ≤ n && n ≤ r.2

/-- **Whether a character is in a set.** -/
def contains (s : CharSet) (c : Char) : Bool := s.has c.toNat

/-! ## Joining ranges -/

/-- The range from `first` to `last` and the ranges after it, those that touch joined. -/
def joinFrom (first last : Nat) : List (Nat × Nat) → CharSet
  | [] => [(first, last)]
  | (a, b) :: rest =>
    if a ≤ last + 1 then joinFrom first (max last b) rest else (first, last) :: joinFrom a b rest

/-- The set of some ranges in ascending order. -/
def ofSorted : List (Nat × Nat) → CharSet
  | [] => []
  | (a, b) :: rest => joinFrom a b rest

/-- **The set of some ranges.** -/
def ofRanges (ranges : List (Nat × Nat)) : CharSet :=
  ofSorted (ranges.mergeSort fun r s ↦ r.1 ≤ s.1)

/-! ## Operations -/

/-- The characters in one of two sets. -/
def union (s t : CharSet) : CharSet := ofRanges (s ++ t)

/-- What is left between the ranges of a set, from `next` up to `top`. -/
def gapsFrom (top next : Nat) : CharSet → CharSet
  | [] => if next ≤ top then [(next, top)] else []
  | (a, b) :: rest =>
    if next < a then (next, a - 1) :: gapsFrom top (b + 1) rest else gapsFrom top (b + 1) rest

/-- **The characters that are not in a set**, up to a code point. -/
def complement (top : Nat) (s : CharSet) : CharSet := gapsFrom top 0 s

/-- The characters in both of two sets. -/
def intersection (s t : CharSet) : CharSet :=
  complement lastCodePoint
    (union (complement lastCodePoint s) (complement lastCodePoint t))

/-- The characters in the first but not in the second of two sets. -/
def difference (s t : CharSet) : CharSet := intersection s (complement lastCodePoint t)

/-- The characters in exactly one of two sets. -/
def symmetricDifference (s t : CharSet) : CharSet := union (difference s t) (difference t s)

/-- Whether all code points of a set are at most `top`. -/
def isWithin (top : Nat) (s : CharSet) : Bool := s.all fun r ↦ r.2 ≤ top

/-! ## Stretches -/

/-- The set with stretches of the given lengths, which by turns are out of it and in it, beginning
at a code point. -/
def fromLengths (first : Nat) : List Nat → CharSet
  | out :: within :: rest =>
    (first + out, first + out + within - 1) :: fromLengths (first + out + within) rest
  | _ => []

/-- The set with stretches of the given lengths, which by turns are out of it and in it. -/
def ofLengths (lengths : List Nat) : CharSet := fromLengths 0 lengths

end CharSet

/-- The numbers of a text of decimal numbers with spaces between them. -/
def numbersOf (s : String) : List Nat :=
  let (done, current) := s.toList.foldl (fun (done, current) c ↦
    if c = ' ' then (current :: done, 0)
    else (done, 10 * current + (c.toNat - '0'.toNat))) (([] : List Nat), 0)
  (current :: done).reverse

/-- The stretches written one after the other from a code point, each as its length, left out if it
is one, and a letter; `digits` is the length as far as it was read, or zero. -/
def stretchesOf (first digits : Nat) : List Char → List (Nat × Nat × Char)
  | [] => []
  | c :: cs =>
    if c.isDigit then stretchesOf first (10 * digits + (c.toNat - '0'.toNat)) cs
    else
      let length := if digits = 0 then 1 else digits
      (first, first + length - 1, c) :: stretchesOf (first + length) 0 cs

/-- The same with two letters behind each length. -/
def pairedStretchesOf (first digits : Nat) : List Char → List (Nat × Nat × Char × Char)
  | [] => []
  | [_] => []
  | c :: d :: cs =>
    if c.isDigit then pairedStretchesOf first (10 * digits + (c.toNat - '0'.toNat)) (d :: cs)
    else
      let length := if digits = 0 then 1 else digits
      (first, first + length - 1, c, d) :: pairedStretchesOf (first + length) 0 cs

end ReactiveForm
