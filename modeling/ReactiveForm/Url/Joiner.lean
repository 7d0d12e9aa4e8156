import ReactiveForm.Unicode.Category

/-!
# Joiners

Two characters that are not seen, the joiner and the non-joiner, change the shape of what is next to
them.  They may occur where they make a difference: behind a mark that takes a vowel away, and the
non-joiner also between two letters that would be joined.
-/

set_option autoImplicit false
namespace ReactiveForm
namespace Joiner

/-- The set with stretches of the lengths that some lines list. -/
private def listed (lines : List String) : CharSet := .ofLengths (lines.flatMap numbersOf)

/-- Marks that take the vowel of a letter away. -/
def vowelKillers : CharSet :=
  listed
    ["2381 1 127 1 127 1 127 1 127 1 127 1 127 1 127 1 109 2 16 1 124 1 111 1 127 1 201 1 180 2",
     "1753 2 30 1 157 1 653 1 227 1 101 2 70 2 4491 1 31366 1 37 1 151 1 142 1 108 1 309 1 246 1",
     "24145 1 1542 1 41 1 14 1 57 1 121 2 139 1 116 1 180 1 98 1 128 3 113 1 127 1 252 1 127 1 118",
     "1 116 1 269 1 259 2 161 1 83 1 18 1 81 1 421 1 260 2 81 1 425 2 16876 1"]

/-- Letters that are joined to the letter behind them. -/
def joinedBehind : CharSet :=
  listed
    ["1568 1 5 1 1 1 1 5 4 13 1 7 1 2 35 2 8 16 18 38 1 2 9 1 1 1 1 2 40 3 2 1 18 3 5 4 1 9 1 1 1",
     "1 1 2 31 11 3 15 2 4 1 1 2 3 2 6 74 33 86 5 2 1 1 10 1 1 10 1 1 4 2 1 29 1 2 5 1 1 16 10 5 2",
     "2 6 1 15 3902 1 24 89 14 34 1 1 36757 51 25165 5 8 1 5 10 1 3 10 4 145 1 1 1 3 3 1 2 1 1 2 1",
     "28 2 337 34 1 1 415 2 1 2 104 3 1 17 12 3 28 4 2 12 46 1 1 2 4 1 2 2 1 2 1 1 2 1 5 2 55604",
     "68"]

/-- Letters that are joined to the letter in front of them. -/
def joinedBefore : CharSet :=
  listed
    ["1568 1 1 30 1 10 35 2 1 3 1 95 1 1 24 2 10 3 2 1 16 1 1 30 29 51 74 33 85 25 7 1 1 4 1 4 5",
     "19 3 1 2 7 16 13 1 27 3902 1 24 89 14 34 1 1 36757 50 25166 6 1 1 1 2 3 9 1 10 2 1 6 5 144",
     "18 23 6 338 35 414 3 1 2 104 21 12 4 27 18 46 1 1 5 1 8 1 4 4 2 55605 68"]

/-- Characters that letters are joined across. -/
def transparent : CharSet := .union (.ofCategories ["Mn", "Me"]) [(0x1E94B, 0x1E94B)]

/-- Whether the nearest character of a text that letters are not joined across is of a set. -/
private def meets (s : CharSet) (cs : List Char) : Bool :=
  (cs.dropWhile transparent.contains).head?.any s.contains

/-- Whether the joiners in a text are where they may occur, given what is in front of it in
reverse. -/
def areFineAfter (before : List Char) : List Char → Bool
  | [] => true
  | c :: cs =>
    let behindKiller := before.head?.any vowelKillers.contains
    let isFine :=
      if c = '\u200D' then behindKiller
      else if c = '\u200C' then behindKiller || (meets joinedBehind before && meets joinedBefore cs)
      else true
    isFine && areFineAfter (c :: before) cs

/-- **Whether the joiners in a label are where they may occur.** -/
def areFine (label : List Char) : Bool := areFineAfter [] label

end Joiner
end ReactiveForm
