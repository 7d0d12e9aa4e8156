import ReactiveForm.Numeric.Layout
import ReactiveForm.Value.Basic

/-!
# The text of a value

Values are written as data text: no blanks, the fields of a record in the order of their names,
numbers with the fewest digits that read back.  Inside a text the quote, the backslash and the
control characters are escaped, and nothing else is.
-/

set_option autoImplicit false
namespace ReactiveForm

/-- **Numbers in data** are positional from `0.00001` up to below `10 ^ 16`; a double that is whole
keeps its point, so that it does not read back as an integer. -/
def Layout.data : Layout where
  positional e := -5 ≤ e && e < 16
  keepsPoint := true
  tie := .toEven

/-- A digit of base sixteen, for a number below sixteen. -/
def hexDigit (n : Nat) : Char := Nat.digitChar n

/-- The form a character takes inside a quoted text. -/
def escaped (c : Char) : List Char :=
  if c = '"' then ['\\', '"']
  else if c = '\\' then ['\\', '\\']
  else if c = '\n' then ['\\', 'n']
  else if c = '\r' then ['\\', 'r']
  else if c = '\t' then ['\\', 't']
  else if c.toNat = 8 then ['\\', 'b']
  else if c.toNat = 12 then ['\\', 'f']
  else if c.toNat < 32 then
    ['\\', 'u', '0', '0', hexDigit (c.toNat / 16), hexDigit (c.toNat % 16)]
  else [c]

/-- A text in quotes. -/
def quoted (s : String) : List Char := '"' :: s.toList.flatMap escaped ++ ['"']

/-- The decimal text of an integer. -/
def integerText (n : Int) : List Char :=
  if n < 0 then '-' :: Nat.toDigits 10 n.natAbs else Nat.toDigits 10 n.natAbs

/-- The pieces with a comma between any two. -/
def commaSeparated : List (List Char) → List Char
  | [] => []
  | [piece] => piece
  | piece :: pieces => piece ++ ',' :: commaSeparated pieces

namespace Value

mutual

/-- **The text of a value.** -/
def render : Value → List Char
  | .null => "null".toList
  | .bool flag => if flag then "true".toList else "false".toList
  | .integer n => integerText n
  | .float x => x.text .data
  | .text s => quoted s
  | .list items => '[' :: commaSeparated (renderItems items) ++ [']']
  | .record fields => '{' :: commaSeparated (renderFields fields) ++ ['}']

/-- The texts of the items of a list. -/
def renderItems : List Value → List (List Char)
  | [] => []
  | v :: vs => render v :: renderItems vs

/-- The texts of the fields of a record. -/
def renderFields : List (String × Value) → List (List Char)
  | [] => []
  | (name, v) :: rest => (quoted name ++ ':' :: render v) :: renderFields rest

end

/-- The text of a value, as a string. -/
def toText (v : Value) : String := String.ofList v.render

end Value

end ReactiveForm
