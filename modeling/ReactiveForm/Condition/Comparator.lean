import ReactiveForm.Value.Path

/-!
# Comparators

A condition on one field compares the field's value with a literal operand.  Comparators are total:
a value that does not fit one makes it fail, and never stops the evaluation.  Equality converts
nothing, so `0` is not `false`; only two numbers are equal across their ways of writing, because
numbers are compared as decimals.
-/

set_option autoImplicit false
namespace ReactiveForm

/-- **What a field's value is asked.** -/
inductive Comparator where
  | equals
  | notEquals
  | greaterThan
  | atLeast
  | lessThan
  | atMost
  | isIn
  | isNotIn
  | isEmpty
  | isNotEmpty
deriving DecidableEq

namespace Comparator

/-- All comparators, in the order in which a condition is searched for their keys. -/
def all : List Comparator :=
  [.equals, .notEquals, .greaterThan, .atLeast, .lessThan, .atMost, .isIn, .isNotIn, .isEmpty,
   .isNotEmpty]

/-- The key that names a comparator in a condition. -/
def key : Comparator → String
  | .equals => "eq"
  | .notEquals => "neq"
  | .greaterThan => "gt"
  | .atLeast => "gte"
  | .lessThan => "lt"
  | .atMost => "lte"
  | .isIn => "in"
  | .isNotIn => "notIn"
  | .isEmpty => "isEmpty"
  | .isNotEmpty => "isNotEmpty"

/-- The comparator that a key names. -/
def ofKey? (key : String) : Option Comparator := all.find? fun c ↦ c.key == key

end Comparator

/-! ## Equality and order -/

/-- **Strict equality**: of two numbers by value, of anything else part by part. -/
def strictEquals (a b : Value) : Bool :=
  match a.decimal?, b.decimal? with
  | some x, some y => x.compare y == .eq
  | _, _ => a == b

/-- The order of two numbers; values that are no numbers have none. -/
def numericOrder? (a b : Value) : Option Ordering :=
  match a.decimal?, b.decimal? with
  | some x, some y => some (x.compare y)
  | _, _ => none

/-- Whether a value is among the items of an operand; an operand that is no list has no answer. -/
def memberOf? (actual : Option Value) (operand : Value) : Option Bool :=
  match operand with
  | .list candidates => some (actual.any fun v ↦ candidates.any (strictEquals v))
  | _ => none

/-- The flag an emptiness test is compared with: an operand that is no flag asks for emptiness. -/
def Value.expectation : Value → Bool
  | .bool flag => flag
  | _ => true

namespace Comparator

/-- Whether the order of the actual value and the operand exists and is accepted. -/
private def ordered (accept : Ordering → Bool) (actual : Option Value) (operand : Value) : Bool :=
  ((actual.bind fun v ↦ numericOrder? v operand).map accept).getD false

/-- **Whether a value, or its absence, passes.** -/
def holds (c : Comparator) (actual : Option Value) (operand : Value) : Bool :=
  match c with
  | .equals => actual.any (strictEquals · operand)
  | .notEquals => !actual.any (strictEquals · operand)
  | .greaterThan => ordered (· == .gt) actual operand
  | .atLeast => ordered (· != .lt) actual operand
  | .lessThan => ordered (· == .lt) actual operand
  | .atMost => ordered (· != .gt) actual operand
  | .isIn => (memberOf? actual operand).getD false
  | .isNotIn => ((memberOf? actual operand).map (!·)).getD false
  | .isEmpty => Value.isEmpty actual == operand.expectation
  | .isNotEmpty => Value.isEmpty actual != operand.expectation

end Comparator

end ReactiveForm
