import ReactiveForm.Pattern.Node
import ReactiveForm.Unicode.Fold

/-!
# Modes of patterns

Seven letters switch modes in which a pattern is read.  A mode holds from where it is switched to
the end of the group around it.  One of the letters, which swaps the two ways of repeating, has no
effect on whether a pattern occurs in a text.

In spaced mode, white space and comments between the words of a pattern mean nothing.  In basic
mode, sets of characters are sets of bytes; as no set may take a character apart, they are then
limited to the basic characters, and no set is the complement of another.
-/

set_option autoImplicit false
namespace ReactiveForm

/-- **The modes in which a pattern is read.** -/
structure Modes where
  /-- Letters that differ in case only are the same. -/
  anyCase : Bool := false
  /-- The questions about the start and the end of the text are about lines instead. -/
  byLine : Bool := false
  /-- The point stands for a line feed as well. -/
  pointIsAll : Bool := false
  /-- Lines end with carriage returns as well. -/
  returns : Bool := false
  basic : Bool := false
  spaced : Bool := false

namespace Modes

/-- The modes after a letter switched one on or off. -/
def switch? (m : Modes) (on : Bool) : Char → Option Modes
  | 'i' => some { m with anyCase := on }
  | 'm' => some { m with byLine := on }
  | 's' => some { m with pointIsAll := on }
  | 'R' => some { m with returns := on }
  | 'u' => some { m with basic := !on }
  | 'x' => some { m with spaced := on }
  | 'U' => some m
  | _ => none

/-- Modes switched by the letters at the front of a text: the modes, whether there are letters, and
the rest from the character that ends them.  Letters after a hyphen are switched off; nothing is
written twice, and a hyphen has a letter behind it. -/
def readSwitches? (m : Modes) (on : Bool) (written : List Char) :
    List Char → Option (Modes × Bool × List Char)
  | [] => none
  | c :: rest =>
    if c = ':' || c = ')' then
      if written.head? == some '-' then none else some (m, !written.isEmpty, c :: rest)
    else if written.contains c then none
    else if c = '-' then readSwitches? m false (c :: written) rest
    else (m.switch? on c).bind fun m ↦ readSwitches? m on (c :: written) rest

/-! ## Spaces -/

/-- The text without the white space and the comments at its front; `inComment` says that it begins
within one. -/
def afterSpaces (inComment : Bool) : List Char → List Char
  | [] => []
  | c :: cs =>
    if inComment then afterSpaces (c != '\n') cs
    else if isBlank c then afterSpaces false cs
    else if c = '#' then afterSpaces true cs
    else c :: cs

/-- The text without what means nothing at its front. -/
def skip (m : Modes) (cs : List Char) : List Char := if m.spaced then afterSpaces false cs else cs

/-- What is written up to a closing brace, without what means nothing, and what follows it. -/
def readBraced? (m : Modes) (inComment : Bool) (read : List Char) :
    List Char → Option (List Char × List Char)
  | [] => none
  | c :: cs =>
    if inComment then m.readBraced? (c != '\n') read cs
    else if m.spaced && isBlank c then m.readBraced? false read cs
    else if m.spaced && c = '#' then m.readBraced? true read cs
    else if c = '}' then some (read.reverse, cs)
    else m.readBraced? false (c :: read) cs

/-! ## Sets -/

/-- A set with the letters that are the same as its own. -/
def closed (m : Modes) (s : CharSet) : CharSet :=
  if !m.anyCase then s else if m.basic then s.foldBasicCase else s.foldCase

/-- **The set that a set, or its complement, is read as**, unless it goes beyond the basic
characters where it must not. -/
def readSet? (m : Modes) (complemented : Bool) (s : CharSet) : Option CharSet :=
  if m.basic then
    if complemented || !s.isWithin 0x7F then none else some (m.closed s)
  else if complemented then some ((m.closed s).complement lastCodePoint)
  else some (m.closed s)

/-- The node for a single character. -/
def literal (m : Modes) (c : Char) : Node := .chars (m.closed [(c.toNat, c.toNat)])

/-- The node that the point stands for. -/
def point? (m : Modes) : Option Node :=
  let ends := if m.pointIsAll then [] else if m.returns then ['\n', '\r'] else ['\n']
  let set := CharSet.ofRanges (ends.map fun c ↦ (c.toNat, c.toNat))
  if m.basic then none else some (.chars (set.complement lastCodePoint))

/-- The question that a circumflex asks. -/
def startLook (m : Modes) : Look := if m.byLine then .lineStart m.returns else .textStart

/-- The question that a dollar sign asks. -/
def finishLook (m : Modes) : Look := if m.byLine then .lineFinish m.returns else .textFinish

end Modes

end ReactiveForm
