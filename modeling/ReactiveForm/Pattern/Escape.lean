import ReactiveForm.Pattern.Modes
import ReactiveForm.Text.Word
import ReactiveForm.Unicode.Name
import ReactiveForm.Value.Reader

/-!
# Escapes in patterns

A backslash takes the meaning from a character that has one, and gives one to some letters: control
characters, characters by number, sets of characters by name, and questions about a place.  Digits
and all other letters must not follow it.
-/

set_option autoImplicit false
namespace ReactiveForm

/-- **What a backslash and the text behind it stand for.** -/
inductive Escape where
  | char (c : Char)
  | set (s : CharSet)
  | look (l : Look)

namespace Escape

/-! ## Characters by number -/

/-- The character with the number that some digits of base sixteen write. -/
def numbered? (digits : List Char) : Option Char :=
  if digits.isEmpty then none
  else (hexNumber? digits).bind fun n ↦ if n.isValidChar then some (Char.ofNat n) else none

/-- As many digits of base sixteen as asked for, and what follows them. -/
def takeDigits? (m : Modes) : Nat → List Char → Option (List Char × List Char)
  | 0, cs => some ([], cs)
  | _ + 1, [] => none
  | count + 1, c :: cs => (takeDigits? m count (m.skip cs)).map fun (ds, rest) ↦ (c :: ds, rest)

/-- A character by number, in braces or with a fixed number of digits.  In basic mode two digits
write a byte, which must be that of a basic character. -/
def numberedAt? (m : Modes) (count : Nat) (cs : List Char) : Option (Escape × List Char) :=
  match m.skip cs with
  | '{' :: rest =>
    (m.readBraced? false [] rest).bind fun (digits, rest) ↦
      (numbered? digits).map fun c ↦ (.char c, rest)
  | cs =>
    (takeDigits? m count cs).bind fun (digits, rest) ↦
      (numbered? digits).bind fun c ↦
        if m.basic && count = 2 && 0x7F < c.toNat then none else some (.char c, rest)

/-! ## Sets by name -/

/-- The set with a name, or with the name of a property and that of its value. -/
def setNamed? (name : List Char) : Option CharSet :=
  match (splitAtWord? ['!', '='] name).or
      ((splitAtWord? [':'] name).or (splitAtWord? ['='] name)) with
  | some (property, value) => CharSet.valued? property value
  | none => CharSet.named? name

/-- A set by a name in braces or of a single letter, or its complement. -/
def namedAt? (m : Modes) (complemented : Bool) (cs : List Char) : Option (Escape × List Char) :=
  let read (name rest : List Char) :=
    if m.basic then none
    else (setNamed? name).bind fun s ↦ (m.readSet? complemented s).map fun s ↦ (.set s, rest)
  match m.skip cs with
  | '{' :: rest => (m.readBraced? false [] rest).bind fun (name, rest) ↦ read name rest
  | c :: rest => read [c] rest
  | [] => none

/-- Digits, spaces or characters of words, or all others, in basic mode of the basic alphabet. -/
def classed? (m : Modes) (complemented : Bool) (general basic : CharSet) : Option Escape :=
  let set := if m.basic then basic else general
  ({ m with anyCase := false }.readSet? complemented set).map .set

/-- Basic digits. -/
def basicDigit : CharSet := [(0x30, 0x39)]

/-- Basic white space. -/
def basicSpace : CharSet := [(0x09, 0x0D), (0x20, 0x20)]

/-- The characters of basic words. -/
def basicWord : CharSet := [(0x30, 0x39), (0x41, 0x5A), (0x5F, 0x5F), (0x61, 0x7A)]

/-! ## Questions about words -/

/-- How a place lies to a word, by name. -/
def edgeNamed? : String → Option WordEdge
  | "start" => some .start
  | "end" => some .finish
  | "start-half" => some .halfStart
  | "end-half" => some .halfFinish
  | _ => none

/-- A question about words whose name may stand in braces; braces with anything else in them begin
a repetition. -/
def wordAt? (m : Modes) (cs : List Char) : Option (Escape × List Char) :=
  match cs with
  | '{' :: rest =>
    match m.skip rest with
    | [] => none
    | c :: _ =>
      if c.isAlpha || c = '-' then
        (m.readBraced? false [] rest).bind fun (name, rest) ↦
          (edgeNamed? (String.ofList name)).map fun e ↦ (.look (.word e m.basic), rest)
      else some (.look (.word .either m.basic), cs)
  | cs => some (.look (.word .either m.basic), cs)

/-! ## Escapes -/

/-- Whether a backslash makes a character stand for itself. -/
def isPlain (c : Char) : Bool := c.toNat < 128 && !c.isAlphanum && c != '<' && c != '>'

/-- What a single character behind a backslash stands for. -/
def ofChar? (m : Modes) : Char → Option Escape
  | 'a' => some (.char '\x07')
  | 'f' => some (.char '\x0C')
  | 't' => some (.char '\t')
  | 'n' => some (.char '\n')
  | 'r' => some (.char '\r')
  | 'v' => some (.char '\x0B')
  | 'A' => some (.look .textStart)
  | 'z' => some (.look .textFinish)
  | 'B' => some (.look (.word .neither m.basic))
  | '<' => some (.look (.word .start m.basic))
  | '>' => some (.look (.word .finish m.basic))
  | 'd' => classed? m false CharSet.decimalDigit basicDigit
  | 'D' => classed? m true CharSet.decimalDigit basicDigit
  | 's' => classed? m false CharSet.whiteSpace basicSpace
  | 'S' => classed? m true CharSet.whiteSpace basicSpace
  | 'w' => classed? m false CharSet.wordCharacter basicWord
  | 'W' => classed? m true CharSet.wordCharacter basicWord
  | c => if isPlain c then some (.char c) else none

/-- **What the text behind a backslash stands for**, and what follows it. -/
def read? (m : Modes) : List Char → Option (Escape × List Char)
  | [] => none
  | 'x' :: rest => numberedAt? m 2 rest
  | 'u' :: rest => numberedAt? m 4 rest
  | 'U' :: rest => numberedAt? m 8 rest
  | 'p' :: rest => namedAt? m false rest
  | 'P' :: rest => namedAt? m true rest
  | 'b' :: rest => wordAt? m rest
  | c :: rest => (ofChar? m c).map (·, rest)

end Escape

end ReactiveForm
