import ReactiveForm.Pattern.Reader
import ReactiveForm.Pattern.Search
import ReactiveForm.Pattern.Size

/-!
# Patterns

A pattern is a regular expression: letters, sets of characters, choice, repetition and questions
about a place, with no memory of what it has passed.  It is refused if its text is not well formed,
nests too deeply, or stands for something too large.

All that the rest of the library asks of a pattern is whether there is one and whether it occurs in
a text.
-/

set_option autoImplicit false
namespace ReactiveForm

/-- **A pattern.** -/
structure Pattern where
  node : Node

namespace Pattern

/-- How deeply a pattern may nest. -/
def depthLimit : Nat := 250

/-- **The pattern that a text writes**, if it writes one. -/
def ofText? (text : String) : Option Pattern :=
  (part? text).bind fun p ↦
    if p.depth ≤ depthLimit && p.node.size ≤ sizeLimit then some ⟨p.node⟩ else none

/-- **Whether a pattern occurs in a text.** -/
def occursIn (p : Pattern) (text : String) : Bool := p.node.occursIn text

end Pattern

end ReactiveForm
