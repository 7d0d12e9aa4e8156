import ReactiveForm.Unicode.Property

/-!
# What patterns are made of

A pattern is built from sets of characters and questions about a place in the text, by putting one
after the other, by choice and by repetition.  A place lies between two characters, of which the
first and the last place have only one; all questions are about these two neighbours.

Whether a repetition tries many rounds first or few makes no difference to whether a pattern occurs
in a text, so a node does not say it.
-/

set_option autoImplicit false
namespace ReactiveForm

/-! ## Questions about a place -/

/-- How a place may lie to a word. -/
inductive WordEdge where
  /-- A word begins or ends here. -/
  | either
  /-- No word begins or ends here. -/
  | neither
  | start
  | finish
  /-- There is no word in front of the place. -/
  | halfStart
  /-- There is no word behind the place. -/
  | halfFinish
deriving DecidableEq, Repr

/-- **A question about a place in a text.** -/
inductive Look where
  | textStart
  | textFinish
  /-- Whether a line begins here; `returns` says that carriage returns end lines as well. -/
  | lineStart (returns : Bool)
  | lineFinish (returns : Bool)
  /-- How the place lies to a word; `basic` says that words have basic letters only. -/
  | word (edge : WordEdge) (basic : Bool)
deriving DecidableEq, Repr

/-- Whether a place with these neighbours lies to a word in a way, given which characters words are
made of. -/
def WordEdge.holds (isWord : Char → Bool) (prev next : Option Char) : WordEdge → Bool
  | .either => prev.any isWord != next.any isWord
  | .neither => prev.any isWord == next.any isWord
  | .start => !prev.any isWord && next.any isWord
  | .finish => prev.any isWord && !next.any isWord
  | .halfStart => !prev.any isWord
  | .halfFinish => !next.any isWord

/-- Whether a character is a letter or digit of the basic alphabet, or an underscore. -/
def isBasicWord (c : Char) : Bool := c.isAlphanum || c = '_'

/-- **Whether the answer is yes** at a place with these neighbours.  Between a carriage return and
the line feed behind it, no line begins or ends. -/
def Look.holds (prev next : Option Char) : Look → Bool
  | .textStart => prev.isNone
  | .textFinish => next.isNone
  | .lineStart false => prev.isNone || prev == some '\n'
  | .lineStart true => prev.isNone || prev == some '\n' || (prev == some '\r' && next != some '\n')
  | .lineFinish false => next.isNone || next == some '\n'
  | .lineFinish true => next.isNone || next == some '\r' || (next == some '\n' && prev != some '\r')
  | .word edge true => edge.holds isBasicWord prev next
  | .word edge false => edge.holds CharSet.wordCharacter.contains prev next

/-! ## Nodes -/

/-- **A node of a pattern.** -/
inductive Node where
  | empty
  /-- One character of a set. -/
  | chars (set : CharSet)
  | look (l : Look)
  | seq (a b : Node)
  | alt (a b : Node)
  /-- Some rounds of a node, at least `least` and, unless there is no bound, at most `most`. -/
  | times (a : Node) (least : Nat) (most : Option Nat)
  /-- A group whose place in the text a search could report. -/
  | group (a : Node)
deriving Repr

namespace Node

/-- Some nodes one after the other. -/
def sequence : List Node → Node
  | [] => .empty
  | [a] => a
  | a :: as => .seq a (sequence as)

/-- One of some nodes. -/
def choice : List Node → Node
  | [] => .empty
  | [a] => a
  | a :: as => .alt a (choice as)

/-- Whether a node passes no characters, whatever the text. -/
def isStill : Node → Bool
  | .empty | .look _ => true
  | .chars _ => false
  | .seq a b | .alt a b => a.isStill && b.isStill
  | .times a _ most => a.isStill || most == some 0
  | .group a => a.isStill

/-- Whether a node may pass no characters in some text. -/
def mayStay : Node → Bool
  | .empty | .look _ => true
  | .chars _ => false
  | .seq a b => a.mayStay && b.mayStay
  | .alt a b => a.mayStay || b.mayStay
  | .times a least _ => a.mayStay || least == 0
  | .group a => a.mayStay

end Node

end ReactiveForm
