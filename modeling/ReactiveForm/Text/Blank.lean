/-!
# Blank text

A text counts as blank when nothing is left after its white space is cut off at both ends.  White
space is the Unicode property of that name: twenty-five characters, which no version of the
standard since 6.3 has changed.
-/

set_option autoImplicit false
namespace ReactiveForm

/-- The closed ranges of white space, ascending and apart. -/
def blankRanges : List (Nat × Nat) :=
  [(0x09, 0x0D), (0x20, 0x20), (0x85, 0x85), (0xA0, 0xA0), (0x1680, 0x1680), (0x2000, 0x200A),
   (0x2028, 0x2029), (0x202F, 0x202F), (0x205F, 0x205F), (0x3000, 0x3000)]

/-- Whether a character is white space. -/
def isBlank (c : Char) : Bool := blankRanges.any fun r ↦ r.1 ≤ c.toNat && c.toNat ≤ r.2

/-- The text without the white space at its ends. -/
def trimBlank (cs : List Char) : List Char :=
  ((cs.dropWhile isBlank).reverse.dropWhile isBlank).reverse

/-- Whether a text has nothing but white space. -/
def isBlankText (s : String) : Bool := s.toList.all isBlank

end ReactiveForm
