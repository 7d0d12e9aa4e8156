import ReactiveForm.Expression.Lexer
import ReactiveForm.Table

/-!
# The fields an expression reads

Which fields a computed field depends on can be left to be inferred from the text of its
expression.  The inference does not parse: it works on any text, also on one that is no expression.
It collects the names that are not members of something, skips what is in quotes and whatever a
digit starts, and leaves out the names that never are fields.
-/

set_option autoImplicit false
namespace ReactiveForm

/-- Names that are never fields: literals, built-in names and key words. -/
def reservedNames : List String :=
  ["true", "false", "null", "undefined", "NaN", "Infinity", "Math", "Number", "String",
   "Boolean", "Array", "Object", "Date", "JSON", "parseInt", "parseFloat", "isNaN", "isFinite",
   "if", "else", "return", "var", "let", "const", "function", "new", "typeof", "instanceof",
   "in", "of", "this", "while", "for", "do", "switch", "case", "break", "continue", "default",
   "throw", "try", "catch", "finally", "void", "delete"]

/-- What follows the closing quote of a quoted text, nothing if it is never closed. -/
def afterQuoted (quote : Char) : List Char → List Char
  | [] => []
  | '\\' :: _ :: rest => afterQuoted quote rest
  | c :: rest => if c = '\\' then [] else if c = quote then rest else afterQuoted quote rest

theorem afterQuoted_length_le (quote : Char) (cs : List Char) :
    (afterQuoted quote cs).length ≤ cs.length := by
  fun_induction afterQuoted quote cs <;> simp <;> omega

/-- Where a quoted text ends whose bytes go on at an offset.  The byte behind a backslash is passed
over unseen, even where there is none, so that a text that is never closed may end behind the end of
all bytes. -/
def quotedEnd (bytes : List UInt8) (quote : UInt8) (offset : Nat) : Nat :=
  match _h : bytes[offset]? with
  | none => offset
  | some b =>
    if b = '\\'.val.toUInt8 then quotedEnd bytes quote (offset + 2)
    else if b = quote then offset + 1
    else quotedEnd bytes quote (offset + 1)
termination_by bytes.length - offset
decreasing_by
  all_goals
    have := (List.getElem?_eq_some_iff.1 _h).1
    omega

/-- **The offset behind a quoted text** whose opening quote is the byte at an offset, `afterQuoted`
by bytes. -/
def skipQuoted (bytes : List UInt8) (start : Nat) : Option Nat :=
  bytes[start]?.map (quotedEnd bytes · (start + 1))

private theorem length_dropWhile_le (p : Char → Bool) (cs : List Char) :
    (cs.dropWhile p).length ≤ cs.length :=
  (List.dropWhile_sublist p).length_le

/-- The names of a text that are not members, in the order in which they occur; `afterDot` says
that a point came last. -/
def namesFrom (afterDot : Bool) (cs : List Char) : List String :=
  match cs with
  | [] => []
  | c :: cs =>
    if c = '\'' || c = '"' then namesFrom false (afterQuoted c cs)
    else if startsName c then
      let name := String.ofList (c :: cs.takeWhile continuesName)
      let rest := namesFrom false (cs.dropWhile continuesName)
      if afterDot || reservedNames.contains name then rest else name :: rest
    else if c.isDigit then namesFrom false (cs.dropWhile fun c ↦ continuesName c || c = '.')
    else if c = '.' then namesFrom true cs
    else if isSeparator c then namesFrom afterDot cs
    else namesFrom false cs
termination_by cs.length
decreasing_by
  · exact Nat.lt_succ_of_le (afterQuoted_length_le c cs)
  · exact Nat.lt_succ_of_le (length_dropWhile_le _ cs)
  · exact Nat.lt_succ_of_le (length_dropWhile_le _ cs)
  · exact Nat.lt_succ_self _
  · exact Nat.lt_succ_self _
  · exact Nat.lt_succ_self _

/-- **The set of fields an expression reads**, as far as its text tells. -/
def inferredReads (source : String) : Names := Names.ofList (namesFrom false source.toList)

end ReactiveForm
