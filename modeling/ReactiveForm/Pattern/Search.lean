import ReactiveForm.Pattern.Node

/-!
# Searching a text for a pattern

The search follows all places of a text that a pattern can lead to at once.  A set of places is a
number, of which bit `i` stands for the place behind the first `i` characters; passing a character
is then a shift, and choice is the union of bits.

`Node.along` first asks the text all questions of a pattern, once each, and `Route.reach` follows
what is left.  As places only move forward and there are finitely many, repeating a node comes to
rest after as many rounds as there are places, whatever the pattern: no search takes more than a
polynomial of the length of the text.
-/

set_option autoImplicit false
namespace ReactiveForm

/-- A set of places in a text, as the bits of a number. -/
abbrev Places := Nat

namespace Places

/-- The places of a text, the one after each character, that come before characters of a set. -/
def before (isMember : Char → Bool) (cs : List Char) : Places :=
  cs.foldr (fun c rest ↦ 2 * rest + (isMember c).toNat) 0

/-- The places where the answer to a question is yes, from one with a given character in front. -/
def answering (l : Look) (prev : Option Char) : List Char → Places
  | [] => (l.holds prev none).toNat
  | c :: cs => 2 * answering l (some c) cs + (l.holds prev (some c)).toNat

/-- All places of a text with `length` characters. -/
def all (length : Nat) : Places := 1 <<< (length + 1) - 1

/-- Where some rounds lead to, or fewer if a round changes nothing. -/
def repeatedly (round : Places → Places) : Nat → Places → Places
  | 0, s => s
  | rounds + 1, s => if round s = s then s else repeatedly round rounds (round s)

end Places

/-- A pattern along a text: its questions are replaced by the places where they are answered. -/
inductive Route where
  /-- Staying at one of some places. -/
  | stay (places : Places)
  /-- Passing the character behind one of some places. -/
  | step (places : Places)
  | seq (a b : Route)
  | alt (a b : Route)
  | times (a : Route) (least : Nat) (most : Option Nat)

/-- **A node along a text.** -/
def Node.along (cs : List Char) : Node → Route
  | .empty => .stay (Places.all cs.length)
  | .chars set => .step (Places.before set.contains cs)
  | .look l => .stay (Places.answering l none cs)
  | .seq a b => .seq (a.along cs) (b.along cs)
  | .alt a b => .alt (a.along cs) (b.along cs)
  | .times a least most => .times (a.along cs) least most
  | .group a => a.along cs

/-- **The places a route leads to** from some places, in a text of a length. -/
def Route.reach (length : Nat) : Route → Places → Places
  | .stay places, s => s &&& places
  | .step places, s => (s &&& places) <<< 1
  | .seq a b, s => b.reach length (a.reach length s)
  | .alt a b, s => a.reach length s ||| b.reach length s
  | .times a least most, s =>
    let further := match most with
      | some most => most - least
      | none => length + 1
    Places.repeatedly (fun s ↦ s ||| a.reach length s) further
      (Places.repeatedly (a.reach length) least s)

/-- **Whether a node occurs in a text**, anywhere. -/
def Node.occursIn (a : Node) (text : String) : Bool :=
  let cs := text.toList
  (a.along cs).reach cs.length (Places.all cs.length) != 0

end ReactiveForm
