import ReactiveForm.Expression.Lexer

/-!
# From text to tokens by bytes

The same words as in `ReactiveForm.Expression.Lexer`, found with an offset that goes along the bytes
of the text.  A word is told by the byte at the offset and at most two more behind it, and what is
in quotes is gone through character by character.  The parts of the text that words are made of are
sliced out of it, and a slice begins and ends between two characters: there is none from the middle
of a character.

There is no result where a slice does not exist, nor where a word would end where it begins, from
where the reading would go on with the same word for ever.  That neither happens, and that the words
are those of `tokens`, is to be proved.
-/

set_option autoImplicit false
namespace ReactiveForm

/-- The byte at an offset, as the character with its number. -/
def byteAt? (bytes : List UInt8) (offset : Nat) : Option Char := bytes[offset]?.map Char.ofUInt8

/-- The slice of a text from one offset to another, which must stand between characters. -/
def slice? (source : String) (start stop : Nat) : Option String :=
  if String.Pos.Raw.isValid source ⟨start⟩ && String.Pos.Raw.isValid source ⟨stop⟩ &&
      decide (start ≤ stop) then
    some (String.Pos.Raw.extract source ⟨start⟩ ⟨stop⟩)
  else none

/-- **The end of a run** of bytes of some class from an offset on. -/
def runEnd (bytes : List UInt8) (p : Char → Bool) (offset : Nat) : Nat :=
  match _h : bytes[offset]? with
  | none => offset
  | some b => if p (.ofUInt8 b) then runEnd bytes p (offset + 1) else offset
termination_by bytes.length - offset
decreasing_by
  have := (List.getElem?_eq_some_iff.1 _h).1
  omega

/-! ## Single words -/

/-- The end of a point at an offset and of the digits behind it. -/
def fractionEnd (bytes : List UInt8) (start : Nat) : Nat :=
  if byteAt? bytes start = some '.' then runEnd bytes Char.isDigit (start + 1) else start

/-- The end of an exponent at an offset.  Behind the mark and a sign one byte is looked at before
any of them is passed over: without a digit there, the mark is not part of the number. -/
def exponentEnd (bytes : List UInt8) (start : Nat) : Nat :=
  if byteAt? bytes start = some 'e' || byteAt? bytes start = some 'E' then
    let signed := byteAt? bytes (start + 1) = some '+' || byteAt? bytes (start + 1) = some '-'
    let ahead := if signed then start + 2 else start + 1
    if (byteAt? bytes ahead).any Char.isDigit then runEnd bytes Char.isDigit ahead else start
  else start

/-- **The end of the number** that starts at an offset. -/
def numberEnd (bytes : List UInt8) (start : Nat) : Nat :=
  exponentEnd bytes (fractionEnd bytes (runEnd bytes Char.isDigit start))

/-- The text up to a closing quote, and the offset of that quote in the characters that are gone
through. -/
def textBefore? (quote : Char) (content : List Char) (index : Nat) :
    List Char → Option (String × Nat)
  | [] => none
  | '\\' :: c :: rest =>
    textBefore? quote (unescapedLetter c :: content) (index + '\\'.utf8Size + c.utf8Size) rest
  | c :: rest =>
    if c = '\\' then none
    else if c = quote then some (String.ofList content.reverse, index)
    else textBefore? quote (c :: content) (index + c.utf8Size) rest

/-- The symbol that a byte and the two behind it begin with, and how many bytes it takes. -/
def symbolOf? (first : Char) (second third : Option Char) : Option (Symbol × Nat) :=
  match first, second with
  | '&', some '&' => some (.and, 2)
  | '|', some '|' => some (.or, 2)
  | '=', some '=' => some (.equal, if third = some '=' then 3 else 2)
  | '!', some '=' => some (.notEqual, if third = some '=' then 3 else 2)
  | '<', some '=' => some (.atMost, 2)
  | '>', some '=' => some (.atLeast, 2)
  | '!', _ => some (.not, 1)
  | '<', _ => some (.less, 1)
  | '>', _ => some (.greater, 1)
  | '+', _ => some (.plus, 1)
  | '-', _ => some (.minus, 1)
  | '*', _ => some (.times, 1)
  | '/', _ => some (.divide, 1)
  | '%', _ => some (.remainder, 1)
  | '(', _ => some (.opening, 1)
  | ')', _ => some (.closing, 1)
  | ',', _ => some (.comma, 1)
  | '.', _ => some (.dot, 1)
  | '?', _ => some (.question, 1)
  | ':', _ => some (.colon, 1)
  | _, _ => none

/-- A word and the offset of its end, or a fault. -/
abbrev WordRead := Except ExpressionError (Token × Nat)

/-- The number at an offset. -/
def numberAt (source : String) (bytes : List UInt8) (start : Nat) : Option WordRead := do
  let raw ← slice? source start (numberEnd bytes start)
  match Binary64.ofText? raw.toList with
  | some x => some (.ok (.number x, numberEnd bytes start))
  | none => some (.error (.invalidNumber raw start))

/-- The quoted text at an offset. -/
def textAt (source : String) (quote : Char) (start : Nat) : Option WordRead := do
  let inside ← slice? source (start + 1) source.utf8ByteSize
  match textBefore? quote [] 0 inside.toList with
  | some (text, index) => some (.ok (.text text, start + 1 + index + 1))
  | none => some (.error (.unterminated start))

/-- The name at an offset. -/
def nameAt (source : String) (bytes : List UInt8) (start : Nat) : Option WordRead := do
  let name ← slice? source start (runEnd bytes continuesName start)
  some (.ok (.name name, runEnd bytes continuesName start))

/-- The symbol at an offset, whose byte is given. -/
def symbolAt (source : String) (bytes : List UInt8) (first : Char) (start : Nat) :
    Option WordRead :=
  match symbolOf? first (byteAt? bytes (start + 1)) (byteAt? bytes (start + 2)) with
  | some (symbol, width) => some (.ok (.symbol symbol, start + width))
  | none => do
    let found ← slice? source start source.utf8ByteSize
    some (.error (.unexpected (found.toList.head?.elim "" Char.toString) "operand or operator"
      start))

/-- **The word at an offset**, whose byte is given. -/
def wordAt (source : String) (bytes : List UInt8) (first : Char) (start : Nat) : Option WordRead :=
  if first = '.' && (byteAt? bytes (start + 1)).any Char.isDigit || first.isDigit then
    numberAt source bytes start
  else if first = '\'' || first = '"' then textAt source first start
  else if startsName first then nameAt source bytes start
  else symbolAt source bytes first start

/-! ## Whole texts -/

/-- The words of a text from an offset on, given those before it in reverse, and the offset of the
end. -/
def wordsFrom (source : String) (bytes : List UInt8) (offset : Nat) (read : List Placed) :
    Option (Except ExpressionError (List Placed × Nat)) :=
  match _h : bytes[offset]? with
  | none => some (.ok (read.reverse, offset))
  | some b =>
    if isSeparator (.ofUInt8 b) then wordsFrom source bytes (offset + 1) read
    else
      match wordAt source bytes (.ofUInt8 b) offset with
      | none => none
      | some (.error fault) => some (.error fault)
      | some (.ok (token, stop)) =>
        if offset < stop then wordsFrom source bytes stop (⟨token, offset⟩ :: read) else none
termination_by bytes.length - offset
decreasing_by
  all_goals
    have := (List.getElem?_eq_some_iff.1 _h).1
    omega

/-- **The words of an expression by its bytes**, and the offset where its text ends. -/
def wordsOfBytes (source : String) : Option (Except ExpressionError (List Placed × Nat)) :=
  match wordsFrom source source.toUTF8.data.toList 0 [] with
  | some (.ok ([], _)) => some (.error .empty)
  | result => result

end ReactiveForm
