import ReactiveForm.Numeric.Numeral
import ReactiveForm.Value.Reader

/-!
# Single settings

How a single setting is written: a text in one of four kinds of quotes, an integer in one of four
bases, a decimal number, or a flag.

Double quotes allow escapes and single ones do not; either kind comes three at a time for texts of
several lines, of which the first line break is left out if it comes first.  Digits may be set apart
by single underscores, and decimal digits have no needless zero in front.
-/

set_option autoImplicit false
namespace ReactiveForm

/-- **A single setting.** -/
inductive Scalar where
  | text (s : String)
  | integer (n : Int)
  | number (x : Binary64)
  | flag (b : Bool)

namespace Scalar

/-! ## Texts -/

/-- Whether a character may stand in a line of settings: no control character but the tab. -/
def isPlain (c : Char) : Bool := c = '\t' || (32 ≤ c.toNat && c.toNat != 127)

/-- The character with the number that some digits of base sixteen write. -/
def charOfHex? (digits : List Char) : Option Char :=
  (hexNumber? digits).bind fun n ↦ if n.isValidChar then some (Char.ofNat n) else none

/-- What a letter behind a backslash stands for. -/
private def letterEscape? : Char → Option Char
  | 'b' => some (Char.ofNat 8)
  | 't' => some '\t'
  | 'n' => some '\n'
  | 'f' => some (Char.ofNat 12)
  | 'r' => some '\r'
  | 'e' => some (Char.ofNat 27)
  | '"' => some '"'
  | '\\' => some '\\'
  | _ => none

/-- The character that the text behind a backslash stands for, and how much text it takes. -/
def escapedChar? : List Char → Option (Char × Nat)
  | 'x' :: a :: b :: _ => (charOfHex? [a, b]).map (·, 3)
  | 'u' :: a :: b :: c :: d :: _ => (charOfHex? [a, b, c, d]).map (·, 5)
  | 'U' :: a :: b :: c :: d :: e :: f :: g :: h :: _ =>
    (charOfHex? [a, b, c, d, e, f, g, h]).map (·, 9)
  | c :: _ => (letterEscape? c).map (·, 1)
  | [] => none

/-- The text up to a quote on the same line, given what was read of it in reverse, and what follows
the quote.  Escapes are read if the quote is a double one; `skip` characters belong to the last. -/
def readLine (quote : Char) (skip : Nat) (read : List Char) :
    List Char → Option (List Char × List Char)
  | [] => none
  | c :: rest =>
    match skip with
    | skip + 1 => readLine quote skip read rest
    | 0 =>
      if c = quote then some (read.reverse, rest)
      else if c = '\\' && quote = '"' then
        (escapedChar? rest).bind fun (c, skip) ↦ readLine quote skip (c :: read) rest
      else if isPlain c then readLine quote 0 (c :: read) rest
      else none

/-- Whether a text begins with a line break. -/
def startsBreak : List Char → Bool
  | '\n' :: _ | '\r' :: '\n' :: _ => true
  | _ => false

/-- Whether a character is a blank within a line. -/
def isInlineBlank (c : Char) : Bool := c = ' ' || c = '\t'

/-- The text up to three quotes, given what was read of it in reverse, and what follows them.  Up to
two quotes more in front of the three are part of the text.

Escapes are read as on a single line.  A backslash at the end of a line takes with it all blanks and
line breaks that follow: `joining` says that they are being skipped.  The number of quotes that were
read last is `quotes`. -/
def readLines (quote : Char) (joining : Bool) (quotes skip : Nat) (read : List Char) :
    List Char → Option (List Char × List Char)
  | [] => none
  | c :: rest =>
    match skip with
    | skip + 1 => readLines quote joining 0 skip read rest
    | 0 =>
      if c = quote then
        if quotes = 2 then
          let more := min 2 (rest.takeWhile (· == quote)).length
          some ((List.replicate more quote ++ read.drop 2).reverse, rest.drop more)
        else readLines quote false (quotes + 1) 0 (c :: read) rest
      else if joining && (isInlineBlank c || startsBreak (c :: rest)) then
        readLines quote true 0 (if c = '\r' then 1 else 0) read rest
      else if c = '\\' && quote = '"' then
        if startsBreak (rest.dropWhile isInlineBlank) then readLines quote true 0 0 read rest
        else (escapedChar? rest).bind fun (c, skip) ↦ readLines quote false 0 skip (c :: read) rest
      else if isPlain c || startsBreak (c :: rest) then
        readLines quote false 0 0 (c :: read) rest
      else none

/-- The text without a line break at its front. -/
def dropBreak : List Char → List Char
  | '\n' :: rest => rest
  | '\r' :: '\n' :: rest => rest
  | cs => cs

/-- The text in quotes at the front of a text, and what follows it. -/
def readText? : List Char → Option (String × List Char)
  | '"' :: '"' :: '"' :: rest => (readLines '"' false 0 0 [] (dropBreak rest)).map named
  | '\'' :: '\'' :: '\'' :: rest => (readLines '\'' false 0 0 [] (dropBreak rest)).map named
  | '"' :: rest => (readLine '"' 0 [] rest).map named
  | '\'' :: rest => (readLine '\'' 0 [] rest).map named
  | _ => none
where
  named (found : List Char × List Char) : String × List Char := (String.ofList found.1, found.2)

/-! ## Numbers -/

/-- The digits among some digits set apart by single underscores. -/
def digitsOf? (isDigit : Char → Bool) : List Char → Option (List Char)
  | [] => none
  | [c] => if isDigit c then some [c] else none
  | c :: '_' :: rest => if isDigit c then (digitsOf? isDigit rest).map (c :: ·) else none
  | c :: rest => if isDigit c then (digitsOf? isDigit rest).map (c :: ·) else none

/-- The number that some digits write in a base. -/
def numberInBase (base : Nat) (digits : List Char) : Nat :=
  digits.foldl (fun n c ↦ base * n + (hexValue? c).getD 0) 0

/-- The integer written in a base other than ten. -/
def inBase? (base : Nat) (cs : List Char) : Option Scalar :=
  (digitsOf? (fun c ↦ (hexValue? c).any (· < base)) cs).map fun ds ↦ .integer (numberInBase base ds)

/-- Decimal digits without a needless zero in front. -/
def wholeDigits? (cs : List Char) : Option (List Char) :=
  (digitsOf? Char.isDigit cs).filter fun ds ↦ ds.length == 1 || ds.head? != some '0'

/-- The exponent that some characters behind its mark write. -/
def exponentOf? : List Char → Option Int
  | '-' :: cs => (digitsOf? Char.isDigit cs).map fun ds ↦ -(natOfDigits ds : Int)
  | '+' :: cs => (digitsOf? Char.isDigit cs).map fun ds ↦ (natOfDigits ds : Int)
  | cs => (digitsOf? Char.isDigit cs).map fun ds ↦ (natOfDigits ds : Int)

/-- Whether a character marks an exponent. -/
private def isMark (c : Char) : Bool := c = 'e' || c = 'E'

/-- The number that some characters write in base ten, without its sign. -/
def decimal? (negative : Bool) (cs : List Char) : Option Scalar :=
  if cs == "inf".toList then some (.number (.infinite negative))
  else if cs == "nan".toList then some (.number .nan)
  else
    let mantissa := cs.takeWhile (!isMark ·)
    let scale := cs.dropWhile (!isMark ·)
    let whole := mantissa.takeWhile (· != '.')
    let fraction := mantissa.dropWhile (· != '.')
    if scale.isEmpty && fraction.isEmpty then
      (wholeDigits? whole).map fun ds ↦
        .integer (if negative then -(natOfDigits ds) else natOfDigits ds)
    else do
      let whole ← wholeDigits? whole
      let fraction ← if fraction.isEmpty then some [] else digitsOf? Char.isDigit (fraction.drop 1)
      let exponent ← if scale.isEmpty then some 0 else exponentOf? (scale.drop 1)
      let x := (Numeral.mk whole fraction exponent).toBinary negative
      if x.isFinite then some (.number x) else none

/-- The number that some characters write. -/
def numberOf? : List Char → Option Scalar
  | '0' :: 'x' :: cs => inBase? 16 cs
  | '0' :: 'o' :: cs => inBase? 8 cs
  | '0' :: 'b' :: cs => inBase? 2 cs
  | '-' :: cs => decimal? true cs
  | '+' :: cs => decimal? false cs
  | cs => decimal? false cs

/-- Whether a character can occur in a number or a flag. -/
def isWordChar (c : Char) : Bool := c.isAlphanum || c = '_' || c = '-' || c = '+' || c = '.'

/-- **The single setting at the front of a text**, and what follows it. -/
def read? (cs : List Char) : Option (Scalar × List Char) :=
  match readText? cs with
  | some (s, rest) => some (.text s, rest)
  | none =>
    let word := cs.takeWhile isWordChar
    let rest := cs.dropWhile isWordChar
    if word == "true".toList then some (.flag true, rest)
    else if word == "false".toList then some (.flag false, rest)
    else (numberOf? word).map (·, rest)

end Scalar

end ReactiveForm
