import ReactiveForm.Condition.Comparator

/-!
# Conditions

A condition is a tree over the values of a form: comparisons of single fields at the leaves, joined
by conjunction, disjunction and negation.  Two more kinds of leaf stand beside the comparisons.  A
*predicate* is a test given in code, with a list of the fields it promises to read.  An *unreadable*
condition keeps the data that could not be read; it never holds and reads nothing, so that a
mistake in a schema can neither show a field nor stop the form.
-/

set_option autoImplicit false
namespace ReactiveForm

/-- **A condition on the values of a form.** -/
inductive Condition where
  | field (path : String) (comparator : Comparator) (operand : Value)
  | all (parts : List Condition)
  | any (parts : List Condition)
  | not (part : Condition)
  | predicate (reads : List String) (test : Record → Bool)
  | unreadable (source : Value)
deriving Inhabited

namespace Condition

/-! ## Evaluation -/

mutual

/-- **Whether a condition holds.** -/
def holds (values : Record) : Condition → Bool
  | .field path comparator operand => comparator.holds (values.at? path) operand
  | .all parts => allHold values parts
  | .any parts => anyHolds values parts
  | .not part => !holds values part
  | .predicate _ test => test values
  | .unreadable _ => false

/-- Whether all of some conditions hold. -/
def allHold (values : Record) : List Condition → Bool
  | [] => true
  | c :: cs => holds values c && allHold values cs

/-- Whether one of some conditions holds. -/
def anyHolds (values : Record) : List Condition → Bool
  | [] => false
  | c :: cs => holds values c || anyHolds values cs

end

/-! ## What a condition is made of -/

mutual

/-- Whether some part of a condition could not be read. -/
def hasUnreadable : Condition → Bool
  | .unreadable _ => true
  | .all parts | .any parts => anyUnreadable parts
  | .not part => hasUnreadable part
  | .field .. | .predicate .. => false

/-- Whether some part of some conditions could not be read. -/
def anyUnreadable : List Condition → Bool
  | [] => false
  | c :: cs => hasUnreadable c || anyUnreadable cs

end

mutual

/-- The nodes on the longest way down the tree; a leaf has depth one. -/
def depth : Condition → Nat
  | .all parts | .any parts => 1 + maxDepth parts
  | .not part => 1 + depth part
  | .field .. | .predicate .. | .unreadable _ => 1

/-- The greatest depth of some conditions, zero if there are none. -/
def maxDepth : List Condition → Nat
  | [] => 0
  | c :: cs => max (depth c) (maxDepth cs)

end

mutual

/-- **The paths a condition reads**, in the order of its leaves. -/
def reads : Condition → List String
  | .field path .. => [path]
  | .all parts | .any parts => allReads parts
  | .not part => reads part
  | .predicate paths _ => paths
  | .unreadable _ => []

/-- The paths some conditions read. -/
def allReads : List Condition → List String
  | [] => []
  | c :: cs => reads c ++ allReads cs

end

mutual

/-- Equality of conditions as they are read from data.  Two tests given in code are never known to
be equal. -/
def same : Condition → Condition → Bool
  | .field p c a, .field q d b => p == q && c == d && a == b
  | .all cs, .all ds | .any cs, .any ds => sameParts cs ds
  | .not c, .not d => same c d
  | .unreadable a, .unreadable b => a == b
  | _, _ => false

/-- Equality of lists of conditions. -/
def sameParts : List Condition → List Condition → Bool
  | [], [] => true
  | c :: cs, d :: ds => same c d && sameParts cs ds
  | _, _ => false

end

/-- The set of paths a condition reads. -/
def readSet (c : Condition) : Names := Names.ofList c.reads

/-! ## Conditions in code -/

/-- The field's value equals the operand. -/
def equals (path : String) (operand : Value) : Condition := .field path .equals operand

/-- The field's value differs from the operand, or there is none. -/
def notEquals (path : String) (operand : Value) : Condition := .field path .notEquals operand

/-- The field's value is one of those listed. -/
def oneOf (path : String) (options : List Value) : Condition := .field path .isIn (.list options)

/-- The field is empty. -/
def isEmpty (path : String) : Condition := .field path .isEmpty (.bool true)

/-- The field is not empty. -/
def isNotEmpty (path : String) : Condition := .field path .isNotEmpty (.bool true)

end Condition

/-- Whether an optional condition holds; one that is absent does. -/
def holdsIfGiven (condition : Option Condition) (values : Record) : Bool :=
  match condition with
  | some c => c.holds values
  | none => true

/-- Whether an optional condition is there and holds. -/
def givenAndHolds (condition : Option Condition) (values : Record) : Bool :=
  condition.any (·.holds values)

end ReactiveForm
