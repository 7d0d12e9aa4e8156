import ReactiveForm.Numeric.Numeral
import ReactiveForm.Pattern.Bracket

/-!
# From text to patterns

A pattern is read one word at a time.  `Draft` holds what has been read: the alternatives of the
innermost open group and the parts of the last one, the modes, and the same for each group around
it.  A repetition takes the part in front of it, which must be there and must not be a switch of
modes.
-/

set_option autoImplicit false
namespace ReactiveForm
namespace Pattern

/-! ## Parts -/

/-- A part of a pattern: a node, how deeply it nests, and whether it may be repeated. -/
structure Part where
  node : Node
  depth : Nat := 0
  isRepeatable : Bool := true

namespace Part

/-- The depth of some parts put together, of which one alone nests no deeper. -/
def depthOf (parts : List Part) : Nat :=
  let deepest := parts.foldl (fun d p ↦ max d p.depth) 0
  if parts.length < 2 then deepest else deepest + 1

/-- Some parts one after the other, given the last one first. -/
def sequence (parts : List Part) : Part :=
  ⟨.sequence (parts.reverse.map (·.node)), depthOf parts, true⟩

/-- One of some parts, given the last one first. -/
def choice (parts : List Part) : Part :=
  ⟨.choice (parts.reverse.map (·.node)), depthOf parts, true⟩

end Part

/-! ## What is open -/

/-- **A group that is open**, or the whole pattern. -/
structure OpenGroup where
  isReported : Bool := false
  /-- The modes that come back once the group is closed. -/
  outerModes : Modes := {}
  /-- The alternatives that were read, the last one first. -/
  alternatives : List Part := []
  /-- The parts of the alternative that is being read, the last one first. -/
  parts : List Part := []

/-- The alternatives of a group as one part. -/
def OpenGroup.body (g : OpenGroup) : Part := .choice (.sequence g.parts :: g.alternatives)

/-- **What has been read of a pattern.** -/
structure Draft where
  inner : OpenGroup := {}
  outer : List OpenGroup := []
  modes : Modes := {}
  /-- The names of groups. -/
  names : List (List Char) := []

namespace Draft

/-- The draft with one more part. -/
def push (d : Draft) (p : Part) : Draft :=
  { d with inner := { d.inner with parts := p :: d.inner.parts } }

/-- The draft with one more node that does not nest. -/
def pushNode (d : Draft) (a : Node) : Draft := d.push { node := a }

/-- The draft with the last part repeated. -/
def repeat? (d : Draft) (least : Nat) (most : Option Nat) : Option Draft :=
  match d.inner.parts with
  | [] => none
  | p :: parts =>
    if p.isRepeatable then
      some { d with inner := { d.inner with
        parts := { node := .times p.node least most, depth := p.depth + 1 } :: parts } }
    else none

/-- The draft with the next alternative begun. -/
def branch (d : Draft) : Draft :=
  { d with inner := { d.inner with
      alternatives := .sequence d.inner.parts :: d.inner.alternatives, parts := [] } }

/-- The draft with a group opened in which other modes hold. -/
def openGroup (d : Draft) (isReported : Bool) (modes : Modes) : Draft :=
  { d with
    inner := { isReported := isReported, outerModes := d.modes }
    outer := d.inner :: d.outer
    modes := modes }

/-- The draft with the innermost group closed. -/
def closeGroup? (d : Draft) : Option Draft :=
  match d.outer with
  | [] => none
  | g :: outer =>
    let body := d.inner.body
    let node := if d.inner.isReported then .group body.node else body.node
    some ({ d with inner := g, outer := outer, modes := d.inner.outerModes }.push
      { node := node, depth := body.depth + 1 })

end Draft

/-! ## Words -/

/-- Whether a name of a group may begin with a character. -/
def startsGroupName (c : Char) : Bool := c = '_' || CharSet.alphabetic.contains c

/-- Whether a name of a group may go on with a character. -/
def continuesGroupName (c : Char) : Bool :=
  c = '_' || c = '.' || c = '[' || c = ']' || CharSet.alphanumeric.contains c

/-- The draft after the name of a group, which no other group has, and what follows it. -/
def readGroupName? (d : Draft) (cs : List Char) : Option (Draft × List Char) :=
  match cs.takeWhile (· != '>'), cs.dropWhile (· != '>') with
  | c :: name, _ :: rest =>
    if startsGroupName c && name.all continuesGroupName && !d.names.contains (c :: name) then
      some ({ d with names := (c :: name) :: d.names }.openGroup true d.modes, rest)
    else none
  | _, _ => none

/-- The draft after an opening parenthesis and what belongs to it, and what follows. -/
def readOpening? (d : Draft) (cs : List Char) : Option (Draft × List Char) :=
  match d.modes.skip cs with
  | '?' :: 'P' :: '<' :: rest => readGroupName? d rest
  | '?' :: '<' :: rest => readGroupName? d rest
  | '?' :: rest =>
    match d.modes.readSwitches? true [] rest with
    | some (modes, _, ':' :: rest) => some (d.openGroup false modes, rest)
    | some (modes, true, _ :: rest) =>
      some ({ d with modes := modes }.push { node := .empty, isRepeatable := false }, rest)
    | _ => none
  | cs => some (d.openGroup true d.modes, cs)

/-- A count, with white space around it. -/
def count? (cs : List Char) : Option Nat :=
  let digits := trimBlank cs
  let n := natOfDigits digits
  if digits.isEmpty || !digits.all Char.isDigit || UInt32.size ≤ n then none else some n

/-- The bounds that are written in braces. -/
def bounds? (cs : List Char) : Option (Nat × Option Nat) :=
  match cs.takeWhile (· != ','), cs.dropWhile (· != ',') with
  | least, [] => (count? least).map fun n ↦ (n, some n)
  | least, [_] => (count? least).map (·, none)
  | least, _ :: most =>
    (count? least).bind fun n ↦ (count? most).bind fun k ↦ if n ≤ k then some (n, some k) else none

/-- The text without a question mark at its front. -/
def dropQuestion : List Char → List Char
  | '?' :: rest => rest
  | cs => cs

/-- **The draft after the word at the front of a text**, and what follows the word. -/
def readWord? (d : Draft) (c : Char) (rest : List Char) : Option (Draft × List Char) :=
  match c with
  | '(' => readOpening? d rest
  | ')' => d.closeGroup?.map (·, rest)
  | '|' => some (d.branch, rest)
  | '[' =>
    (Bracket.read? d.modes rest).map fun (item, rest) ↦
      (d.push { node := .chars item.set, depth := item.depth }, rest)
  | '?' => (d.repeat? 0 (some 1)).map (·, dropQuestion rest)
  | '*' => (d.repeat? 0 none).map (·, dropQuestion rest)
  | '+' => (d.repeat? 1 none).map (·, dropQuestion rest)
  | '{' =>
    (d.modes.readBraced? false [] rest).bind fun (content, rest) ↦
      (bounds? content).bind fun (least, most) ↦
        (d.repeat? least most).map (·, dropQuestion (d.modes.skip rest))
  | '\\' =>
    (Escape.read? d.modes rest).map fun (item, rest) ↦
      (d.pushNode (match item with
        | .char c => d.modes.literal c
        | .set s => .chars s
        | .look l => .look l), rest)
  | '.' => d.modes.point?.map fun a ↦ (d.pushNode a, rest)
  | '^' => some (d.pushNode (.look d.modes.startLook), rest)
  | '$' => some (d.pushNode (.look d.modes.finishLook), rest)
  | c => some (d.pushNode (d.modes.literal c), rest)

/-! ## Whole patterns -/

/-- The part that the rest of a text makes of a draft.  The bound is that of its length. -/
def readFrom? : Nat → Draft → List Char → Option Part
  | bound, d, cs =>
    match d.modes.skip cs, bound with
    | [], _ => if d.outer.isEmpty then some d.inner.body else none
    | _, 0 => none
    | c :: rest, bound + 1 => (readWord? d c rest).bind fun (d, rest) ↦ readFrom? bound d rest

/-- **The pattern that a text writes**, as a part. -/
def part? (text : String) : Option Part := readFrom? text.toList.length {} text.toList

end Pattern
end ReactiveForm
