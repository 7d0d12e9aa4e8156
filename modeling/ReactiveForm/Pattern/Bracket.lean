import ReactiveForm.Pattern.Escape

/-!
# Sets in brackets

A set of characters is written in brackets: single characters, ranges, escapes that stand for sets,
names of basic sets between colons, and further brackets.  Two signs in a row, `&&`, `--` or `~~`,
take the intersection, the difference or the symmetric difference of what is on both sides of them,
from left to right.

Brackets are read one word at a time, with the brackets that are open around the word in a list, the
innermost first.
-/

set_option autoImplicit false
namespace ReactiveForm

/-- An operation on two sets. -/
inductive SetOperation where
  | intersection
  | difference
  | symmetricDifference
deriving DecidableEq, Repr

/-- The set that an operation makes of two. -/
def SetOperation.apply : SetOperation → CharSet → CharSet → CharSet
  | .intersection => CharSet.intersection
  | .difference => CharSet.difference
  | .symmetricDifference => CharSet.symmetricDifference

namespace Bracket

/-! ## What is open -/

/-- A set, and how deeply what it is written with nests. -/
structure Nested where
  set : CharSet := []
  depth : Nat := 0

/-- **A bracket that is open.** -/
structure Opened where
  complemented : Bool := false
  /-- The left side of an operation, and the operation. -/
  left : Option (Nested × SetOperation) := none
  /-- What was read since: its ranges, the number of items, and the depth of the deepest. -/
  ranges : CharSet := []
  count : Nat := 0
  deepest : Nat := 0

namespace Opened

/-- The bracket with one more item in it. -/
def add (o : Opened) (item : Nested) : Opened :=
  { o with
    ranges := item.set ++ o.ranges
    count := o.count + 1
    deepest := max o.deepest item.depth }

/-- The set that was read since the last operation; several items nest deeper than one. -/
def operand (o : Opened) : Nested :=
  ⟨CharSet.ofRanges o.ranges, if o.count < 2 then o.deepest else o.deepest + 1⟩

/-- The set that was read, all operations done. -/
def total (m : Modes) (o : Opened) : Nested :=
  match o.left with
  | none => o.operand
  | some (l, operation) =>
    let r := o.operand
    ⟨operation.apply (m.closed l.set) (m.closed r.set), max l.depth r.depth + 1⟩

/-- The bracket with all that was read as the left side of an operation. -/
def operate (m : Modes) (operation : SetOperation) (o : Opened) : Opened :=
  { complemented := o.complemented, left := some (o.total m, operation) }

/-- What a bracket stands for once it is closed. -/
def close? (m : Modes) (o : Opened) : Option Nested :=
  let t := o.total m
  (m.readSet? o.complemented t.set).map (⟨·, t.depth + 1⟩)

end Opened

/-! ## Words -/

/-- What is open after an opening bracket, and what follows it.  Hyphens at the front are
characters, and so is a closing bracket. -/
def open? (m : Modes) (cs : List Char) : Option (Opened × List Char) :=
  let (complemented, rest) := match m.skip cs with
    | '^' :: rest => (true, m.skip rest)
    | rest => (false, rest)
  let o : Opened := { complemented := complemented }
  match hyphens rest.length 0 rest with
  | (0, ']' :: rest) => some (o.add (single ']'), m.skip rest)
  | (_, []) => none
  | (count, rest) => some ((List.replicate count (single '-')).foldl Opened.add o, rest)
where
  single (c : Char) : Nested := ⟨[(c.toNat, c.toNat)], 0⟩
  /-- The number of hyphens at the front of a text, and what follows them.  The bound is that of its
  length. -/
  hyphens : Nat → Nat → List Char → Nat × List Char
    | bound + 1, count, '-' :: rest => hyphens bound (count + 1) (m.skip rest)
    | _, count, rest => (count, rest)

/-- The basic set with a name. -/
def basicSet? : String → Option CharSet
  | "alnum" => some [(0x30, 0x39), (0x41, 0x5A), (0x61, 0x7A)]
  | "alpha" => some [(0x41, 0x5A), (0x61, 0x7A)]
  | "ascii" => some [(0x00, 0x7F)]
  | "blank" => some [(0x09, 0x09), (0x20, 0x20)]
  | "cntrl" => some [(0x00, 0x1F), (0x7F, 0x7F)]
  | "digit" => some [(0x30, 0x39)]
  | "graph" => some [(0x21, 0x7E)]
  | "lower" => some [(0x61, 0x7A)]
  | "print" => some [(0x20, 0x7E)]
  | "punct" => some [(0x21, 0x2F), (0x3A, 0x40), (0x5B, 0x60), (0x7B, 0x7E)]
  | "space" => some [(0x09, 0x0D), (0x20, 0x20)]
  | "upper" => some [(0x41, 0x5A)]
  | "word" => some [(0x30, 0x39), (0x41, 0x5A), (0x5F, 0x5F), (0x61, 0x7A)]
  | "xdigit" => some [(0x30, 0x39), (0x41, 0x46), (0x61, 0x66)]
  | _ => none

/-- The basic set named behind an opening bracket, whether its complement is meant, and what follows
the name.  Nothing that is no such name is an error here, as it may be read as a bracket. -/
def basicSetAt? (cs : List Char) : Option (CharSet × Bool × List Char) :=
  match cs with
  | ':' :: cs =>
    let (complemented, cs) := match cs with
      | '^' :: cs => (true, cs)
      | cs => (false, cs)
    match cs.dropWhile (· != ':') with
    | ':' :: ']' :: rest =>
      (basicSet? (String.ofList (cs.takeWhile (· != ':')))).map fun s ↦ (s, complemented, rest)
    | _ => none
  | _ => none

/-- A character or an escape, and what follows it. -/
def readItem? (m : Modes) : List Char → Option (Escape × List Char)
  | [] => none
  | '\\' :: rest => Escape.read? m rest
  | c :: rest => some (.char c, rest)

/-- The character behind a hyphen.  In spaced mode a comment is looked into, but not past. -/
def behindHyphen? (m : Modes) (cs : List Char) : Option Char :=
  if m.spaced then
    match cs.dropWhile isBlank with
    | '#' :: rest => (rest.dropWhile isBlank).head?
    | rest => rest.head?
  else cs.head?

/-- A range if there is a hyphen with a character behind it, and otherwise a single item. -/
def readRange? (m : Modes) (cs : List Char) : Option (CharSet × List Char) :=
  (readItem? m cs).bind fun (item, rest) ↦
    let single : Option (CharSet × List Char) :=
      match item with
      | .char c => some ([(c.toNat, c.toNat)], m.skip rest)
      | .set s => some (s, m.skip rest)
      | .look _ => none
    match m.skip rest with
    | '-' :: behind =>
      if behindHyphen? m behind == some ']' || behindHyphen? m behind == some '-' then single
      else
        match item, readItem? m (m.skip behind) with
        | .char a, some (.char b, rest) =>
          if a ≤ b then some ([(a.toNat, b.toNat)], rest) else none
        | _, _ => none
    | _ => single

/-! ## Brackets -/

/-- The sign of an operation at the front of a text, and what follows it. -/
def operationAt? : List Char → Option (SetOperation × List Char)
  | '&' :: '&' :: rest => some (.intersection, rest)
  | '-' :: '-' :: rest => some (.difference, rest)
  | '~' :: '~' :: rest => some (.symmetricDifference, rest)
  | _ => none

/-- **What the rest of a bracket stands for**, given what is open, and what follows it.  The bound
is that of the length of the text. -/
def readFrom? (m : Modes) : Nat → Opened → List Opened → List Char → Option (Nested × List Char)
  | 0, _, _, _ => none
  | bound + 1, inner, outer, cs =>
    match m.skip cs with
    | [] => none
    | '[' :: rest =>
      match basicSetAt? rest with
      | some (s, complemented, rest) =>
        (m.readSet? complemented s).bind fun s ↦
          readFrom? m bound (inner.add ⟨s, 0⟩) outer rest
      | none => (open? m rest).bind fun (o, rest) ↦ readFrom? m bound o (inner :: outer) rest
    | ']' :: rest =>
      (inner.close? m).bind fun item ↦
        match outer with
        | [] => some (item, rest)
        | o :: outer => readFrom? m bound (o.add item) outer rest
    | cs =>
      match operationAt? cs with
      | some (operation, rest) => readFrom? m bound (inner.operate m operation) outer rest
      | none =>
        (readRange? m cs).bind fun (s, rest) ↦
          if m.basic && !s.isWithin 0x7F then none
          else readFrom? m bound (inner.add ⟨s, 0⟩) outer rest

/-- **The set behind an opening bracket**, how deeply it nests, and what follows it. -/
def read? (m : Modes) (cs : List Char) : Option (Nested × List Char) :=
  (open? m cs).bind fun (o, rest) ↦ readFrom? m cs.length o [] rest

end Bracket

end ReactiveForm
