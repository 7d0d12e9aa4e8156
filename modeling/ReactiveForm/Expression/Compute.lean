import ReactiveForm.Expression.Eval
import ReactiveForm.Expression.Parser

/-!
# Computed values

From the values of a form to the value an expression computes.  A computation waits until all its
dependencies are there; it then sees those and nothing else.  Numbers that result are rounded from
their decimal digits if a number of places is given, and become integers where that loses nothing.
A computation that fails, or whose result is no value, computes nothing: that is `none`, and never
an error of the form.
-/

set_option autoImplicit false
namespace ReactiveForm

/-! ## Numbers in and out -/

/-- Whether a character can occur in a plainly written number. -/
private def isNumberChar (c : Char) : Bool :=
  c.isDigit || c = '.' || c = '-' || c = '+' || c = 'e' || c = 'E'

/-- **The number a text looks like**, if it is written with digits, signs, points and exponents
alone and is finite. -/
def numericText? (s : String) : Option Binary64 :=
  let cs := trimBlank s.toList
  if cs.isEmpty || !cs.all isNumberChar then none
  else (Binary64.ofText? cs).filter Binary64.isFinite

/-- **The number rounded to some decimal places**, going by the digits that write it.  Numbers that
are not finite have none. -/
def Binary64.roundToPlaces (mode : Rounding) (places : Nat) : Binary64 → Option Binary64
  | .finite x => some ((x.toDecimal .upward).roundTo mode places).toBinary
  | _ => none

/-- The greatest magnitude up to which all integers are doubles. -/
def maxExactInteger : Nat := 1 <<< 53 - 1

/-- The integer a finite double is, if it is a whole number within the exact range. -/
def Finite64.integer? (x : Finite64) : Option Int :=
  let magnitude : Nat := x.units / unitsPerOne
  if x.isWhole && decide (magnitude ≤ maxExactInteger) then
    some (if x.negative then -magnitude else magnitude)
  else none

/-- The value of a number: an integer if it is one exactly, and nothing if it is not finite. -/
def Binary64.toValue? : Binary64 → Option Value
  | .finite x => some (match x.integer? with
    | some n => .integer n
    | none => .float x)
  | _ => none

/-- The value an operand is; there is none for nothing and for numbers that are not finite. -/
def Operand.toValue? : Operand → Option Value
  | .number x => x.toValue?
  | .text s => some (.text s)
  | .bool flag => some (.bool flag)
  | .null => none
  | .data v => some v

/-! ## Computing -/

/-- The operand that a dependency is bound to.  A text that looks like a number is one. -/
def Operand.ofDependency : Option Value → Operand
  | none | some .null => .number (.zero false)
  | some (.text s) => ((numericText? s).map Operand.number).getD (.text s)
  | some v => .ofValue v

/-- The scope of a computation: each dependency under its path. -/
def scopeOf (values : Record) (dependencies : List String) : Scope :=
  Table.ofList (dependencies.map fun path ↦ (path, .ofDependency (values.at? path)))

/-- Whether all dependencies have values that may enter a computation. -/
def allReady (values : Record) (dependencies : List String) : Bool :=
  dependencies.all fun path ↦ Value.isReady (values.at? path)

/-- The value of a computed operand, rounded if a number of places is given. -/
def Operand.settle (places : Option Nat) (mode : Rounding) : Operand → Option Value
  | .number x =>
    if x.isFinite then
      match places with
      | some places => (x.roundToPlaces mode places).bind Binary64.toValue?
      | none => x.toValue?
    else none
  | a => a.toValue?

/-- **The value an expression computes.** -/
def Expression.evaluate (e : Expression) (values : Record) (dependencies : List String)
    (places : Option Nat) (mode : Rounding) : Option Value :=
  if allReady values dependencies then
    match e.tree.eval (scopeOf values dependencies) with
    | .ok a => a.settle places mode
    | .error _ => none
  else none

/-! ## Change -/

/-- **Whether a value differs enough from another to be written.**  Numbers closer than `epsilon`
do not; anything else differs if it is not the same. -/
def changesMaterially (previous next : Option Value) (epsilon : Binary64) : Bool :=
  match previous.bind Value.number?, next.bind Value.number? with
  | some x, some y => (x.sub y).abs.gt epsilon
  | _, _ => !sameValue previous next

/-- The tolerance below which computed numbers count as unchanged, unless configured otherwise. -/
def defaultEpsilon : Binary64 := .ofRatio false unitsPerOne 10000

end ReactiveForm
