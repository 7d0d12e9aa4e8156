import ReactiveForm.Numeric.Numeral
import ReactiveForm.Text.Word
import ReactiveForm.Value.Basic

/-!
# Reading values

The reader of data text.  A number without a point and an exponent is an integer if it lies between
`-2 ^ 63` and `2 ^ 64`; any other number is the nearest double, and one too large for a double is
refused.  Of two fields of a record with the same name the later one counts.

Every step of the reader takes at least one character, so the length of the text bounds the number
of steps, and `Value.ofText?` hands that bound to the functions that recurse on it.
-/

set_option autoImplicit false
namespace ReactiveForm

/-! ## Numbers -/

/-- Whether whole digits are written without a needless zero in front. -/
private def isPlainWhole : List Char → Bool
  | [] => false
  | [_] => true
  | c :: _ => c != '0'

/-- The number at the front of a text, without its sign. -/
private def readUnsigned (negative : Bool) (cs : List Char) : Option (Value × List Char) :=
  let (whole, rest) := spanDigits cs
  if !isPlainWhole whole then none
  else
    let (fraction, rest, hasFraction) := match rest with
      | '.' :: behind => ((spanDigits behind).1, (spanDigits behind).2, true)
      | rest => ([], rest, false)
    if hasFraction && fraction.isEmpty then none
    else
      let (exponent, rest) := match Numeral.exponent? rest with
        | some (e, rest) => (some e, rest)
        | none => (none, rest)
      let numeral : Numeral := ⟨whole, fraction, exponent.getD 0⟩
      let n : Int := if negative then -(natOfDigits whole) else natOfDigits whole
      let isInteger := !hasFraction && exponent.isNone && !(negative && n == 0)
      if isInteger && fitsWord n then some (.integer n, rest)
      else (numeral.toBinary negative).finite?.map fun x ↦ (.float x, rest)

/-! ## Texts -/

/-- The value of a digit of base sixteen. -/
def hexValue? (c : Char) : Option Nat :=
  if '0' ≤ c && c ≤ '9' then some (c.toNat - '0'.toNat)
  else if 'a' ≤ c && c ≤ 'f' then some (c.toNat - 'a'.toNat + 10)
  else if 'A' ≤ c && c ≤ 'F' then some (c.toNat - 'A'.toNat + 10)
  else none

/-- The number written by digits of base sixteen. -/
def hexNumber? (cs : List Char) : Option Nat :=
  cs.foldl (fun n c ↦ n.bind fun n ↦ (hexValue? c).map (16 * n + ·)) (some 0)

/-- The character a lower and an upper half of a pair encode. -/
private def pairedChar? (high low : Nat) : Option Char :=
  if 0xD800 ≤ high && high < 0xDC00 && 0xDC00 ≤ low && low < 0xE000 then
    some (Char.ofNat (0x10000 + (high - 0xD800) * 0x400 + (low - 0xDC00)))
  else none

/-- The character that a letter after a backslash stands for. -/
private def unescaped? : Char → Option Char
  | '"' => some '"'
  | '\\' => some '\\'
  | '/' => some '/'
  | 'b' => some (Char.ofNat 8)
  | 'f' => some (Char.ofNat 12)
  | 'n' => some '\n'
  | 'r' => some '\r'
  | 't' => some '\t'
  | _ => none

/-- The characters up to the closing quote, given those read so far in reverse, and what follows
the quote. -/
def readQuoted (read : List Char) : List Char → Option (List Char × List Char)
  | '"' :: rest => some (read.reverse, rest)
  | '\\' :: 'u' :: a :: b :: c :: d :: '\\' :: 'u' :: e :: f :: g :: h :: rest =>
    (hexNumber? [a, b, c, d]).bind fun n ↦
      if 0xD800 ≤ n && n < 0xE000 then
        (hexNumber? [e, f, g, h]).bind fun m ↦
          (pairedChar? n m).bind fun char ↦ readQuoted (char :: read) rest
      else readQuoted (Char.ofNat n :: read) ('\\' :: 'u' :: e :: f :: g :: h :: rest)
  | '\\' :: 'u' :: a :: b :: c :: d :: rest =>
    (hexNumber? [a, b, c, d]).bind fun n ↦
      if 0xD800 ≤ n && n < 0xE000 then none else readQuoted (Char.ofNat n :: read) rest
  | '\\' :: c :: rest => (unescaped? c).bind fun c ↦ readQuoted (c :: read) rest
  | c :: rest => if c.toNat < 32 then none else readQuoted (c :: read) rest
  | [] => none

/-! ## Values -/

/-- Skips the blanks that data text allows between its parts. -/
def skipBlanks (cs : List Char) : List Char :=
  cs.dropWhile fun c ↦ c = ' ' || c = '\t' || c = '\n' || c = '\r'

namespace Value

mutual

/-- The value at the front of a text, and what follows it. -/
private def read (bound : Nat) (cs : List Char) : Option (Value × List Char) :=
  match bound with
  | 0 => none
  | bound + 1 =>
    match cs with
    | 'n' :: rest => (afterWord? "ull".toList rest).map (.null, ·)
    | 't' :: rest => (afterWord? "rue".toList rest).map (.bool true, ·)
    | 'f' :: rest => (afterWord? "alse".toList rest).map (.bool false, ·)
    | '"' :: rest => (readQuoted [] rest).map fun (s, rest) ↦ (.text (String.ofList s), rest)
    | '[' :: rest =>
      match skipBlanks rest with
      | ']' :: rest => some (.list [], rest)
      | rest => readItems bound [] rest
    | '{' :: rest =>
      match skipBlanks rest with
      | '}' :: rest => some (.record [], rest)
      | rest => readFields bound [] rest
    | '-' :: rest => readUnsigned true rest
    | rest => readUnsigned false rest

/-- The items of a list up to its end, given those read so far in reverse. -/
private def readItems (bound : Nat) (items : List Value) (cs : List Char) :
    Option (Value × List Char) :=
  match bound with
  | 0 => none
  | bound + 1 =>
    (read bound cs).bind fun (v, rest) ↦
      match skipBlanks rest with
      | ',' :: rest => readItems bound (v :: items) (skipBlanks rest)
      | ']' :: rest => some (.list (v :: items).reverse, rest)
      | _ => none

/-- The fields of a record up to its end, given those read so far. -/
private def readFields (bound : Nat) (fields : Record) (cs : List Char) :
    Option (Value × List Char) :=
  match bound, cs with
  | bound + 1, '"' :: rest =>
    (readQuoted [] rest).bind fun (name, rest) ↦
      match skipBlanks rest with
      | ':' :: rest =>
        (read bound (skipBlanks rest)).bind fun (v, rest) ↦
          let fields := fields.insert (String.ofList name) v
          match skipBlanks rest with
          | ',' :: rest => readFields bound fields (skipBlanks rest)
          | '}' :: rest => some (.record fields, rest)
          | _ => none
      | _ => none
  | _, _ => none

end

/-- **The value a text writes**, if it writes one and nothing else. -/
def ofText? (s : String) : Option Value :=
  match read (s.length + 1) (skipBlanks s.toList) with
  | some (v, rest) => if (skipBlanks rest).isEmpty then some v else none
  | none => none

end Value

end ReactiveForm
