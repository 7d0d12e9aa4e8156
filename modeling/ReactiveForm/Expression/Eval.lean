import ReactiveForm.Expression.Token
import ReactiveForm.Expression.Syntax
import ReactiveForm.Numeric.Numeral
import ReactiveForm.Value.Path
import ReactiveForm.Value.Render

/-!
# Evaluating expressions

Expressions compute with loosely typed operands.  A plus sign joins texts as soon as one of its
sides is a text; every other arithmetic operator converts its operands to numbers; the two logical
operators return one of their operands as it is; equality alone never converts.

An expression sees nothing but its scope, a table of operands by path.  A name that is not in the
scope is a fault; a member that does not exist is `null`.  A chain of members is looked up in the
scope as a whole path before its object is evaluated.
-/

set_option autoImplicit false
namespace ReactiveForm

/-- **What an expression computes with.** -/
inductive Operand where
  | number (x : Binary64)
  | text (s : String)
  | bool (flag : Bool)
  | null
  /-- A list or a record, passed through from the values of the form. -/
  | data (v : Value)

namespace Operand

/-- The operand a value becomes. -/
def ofValue : Value → Operand
  | .null => .null
  | .bool flag => .bool flag
  | .integer n => .number (.ofInt n)
  | .float x => .number (.finite x)
  | .text s => .text s
  | .list items => .data (.list items)
  | .record fields => .data (.record fields)

/-- The number an operand converts to. -/
def toNumber : Operand → Binary64
  | .number x => x
  | .bool flag => .ofNat flag.toNat
  | .null => .zero false
  | .text s =>
    let cs := trimBlank s.toList
    if cs.isEmpty then .zero false else (Binary64.ofText? cs).getD .nan
  | .data _ => .nan

/-- Whether an operand counts as true. -/
def truthy : Operand → Bool
  | .number x => !x.isNaN && !x.same (.zero false)
  | .text s => !s.isEmpty
  | .bool flag => flag
  | .null => false
  | .data _ => true

/-- The text an operand contributes to a joined text. -/
def toText : Operand → String
  | .number x => x.bareText "Infinity"
  | .text s => s
  | .bool flag => if flag then "true" else "false"
  | .null => "null"
  | .data v => v.toText

/-- Equality without conversion. -/
def same : Operand → Operand → Bool
  | .number x, .number y => x.same y
  | .text s, .text t => s == t
  | .bool a, .bool b => a == b
  | .null, .null => true
  | .data v, .data w => v == w
  | _, _ => false

/-- The order of two operands: of texts by code point, of anything else as numbers. -/
def order? : Operand → Operand → Option Ordering
  | .text s, .text t => some (if s < t then .lt else if s = t then .eq else .gt)
  | a, b => a.toNumber.compare? b.toNumber

/-- A length as a number; one that does not fit 32 bits counts as infinite. -/
private def ofLength (n : Nat) : Operand :=
  .number (if n < UInt32.size then .ofNat n else .infinite false)

/-- A member of an operand, `null` if there is none. -/
def member : Operand → String → Operand
  | .text s, property => if property = "length" then ofLength s.length else .null
  | .data v, property =>
    match v with
    | .list items =>
      if property = "length" then ofLength items.length
      else ((v.child? property).map ofValue).getD .null
    | v => ((v.child? property).map ofValue).getD .null
  | _, _ => .null

end Operand

/-! ## Operators and functions -/

/-- The result of an operator before its operand. -/
def UnaryOp.apply : UnaryOp → Operand → Operand
  | .not, a => .bool (!a.truthy)
  | .negate, a => .number a.toNumber.neg
  | .plus, a => .number a.toNumber

/-- Whether an operand is a text. -/
private def isTextOperand : Operand → Bool
  | .text _ => true
  | _ => false

/-- The result of an operator between its operands. -/
def BinaryOp.apply (op : BinaryOp) (a b : Operand) : Operand :=
  match op with
  | .add =>
    if isTextOperand a || isTextOperand b then .text (a.toText ++ b.toText)
    else .number (a.toNumber.add b.toNumber)
  | .sub => .number (a.toNumber.sub b.toNumber)
  | .mul => .number (a.toNumber.mul b.toNumber)
  | .div => .number (a.toNumber.div b.toNumber)
  | .rem => .number (a.toNumber.rem b.toNumber)
  | .equal => .bool (a.same b)
  | .notEqual => .bool (!a.same b)
  | .less => .bool ((a.order? b).any (· == .lt))
  | .atMost => .bool ((a.order? b).any (· != .gt))
  | .greater => .bool ((a.order? b).any (· == .gt))
  | .atLeast => .bool ((a.order? b).any (· != .lt))

/-- The extreme of some numbers, starting from the neutral one; not-a-number takes over. -/
private def extreme (pick : Binary64 → Binary64 → Binary64) (neutral : Binary64)
    (xs : List Binary64) : Binary64 :=
  if xs.any Binary64.isNaN then .nan else xs.foldl pick neutral

/-- The function of one number that a built-in function is, if it is one. -/
private def unaryFunction? : MathFunction → Option (Binary64 → Binary64)
  | .abs => some Binary64.abs
  | .ceil => some Binary64.ceil
  | .floor => some Binary64.floor
  | .round => some Binary64.round
  | .sqrt => some Binary64.sqrt
  | .trunc => some Binary64.trunc
  | .sign => some Binary64.sign
  | .max | .min | .pow => none

/-- The result of a built-in function. -/
def MathFunction.apply (f : MathFunction) (xs : List Binary64) :
    Except ExpressionError Binary64 :=
  match f, xs with
  | .max, xs => .ok (extreme Binary64.max (.infinite true) xs)
  | .min, xs => .ok (extreme Binary64.min (.infinite false) xs)
  | .pow, [x, y] => .ok (x.power y)
  | .pow, xs => .error (.wrongArity "Math.pow" 2 xs.length)
  | f, xs =>
    match unaryFunction? f, xs with
    | some g, [x] => .ok (g x)
    | _, xs => .error (.wrongArity ("Math." ++ f.name) 1 xs.length)

/-! ## Trees -/

/-- What an expression can see: operands by path. -/
abbrev Scope := Table Operand

namespace Expr

mutual

/-- **The operand an expression evaluates to.** -/
def eval (scope : Scope) : Expr → Except ExpressionError Operand
  | .literal l => .ok <| match l with
    | .number x => .number x
    | .text s => .text s
    | .bool flag => .bool flag
    | .null => .null
  | .name s =>
    match scope.find? s with
    | some a => .ok a
    | none => .error (.unbound s)
  | .member object property =>
    match (path? (.member object property)).bind scope.find? with
    | some a => .ok a
    | none => do
      let a ← eval scope object
      .ok (a.member property)
  | .call f arguments => do
    let xs ← evalNumbers scope arguments
    let x ← f.apply xs
    .ok (.number x)
  | .unary op operand => do
    let a ← eval scope operand
    .ok (op.apply a)
  | .binary op left right => do
    let a ← eval scope left
    let b ← eval scope right
    .ok (op.apply a b)
  | .logical op left right => do
    let a ← eval scope left
    match op, a.truthy with
    | .and, false | .or, true => .ok a
    | _, _ => eval scope right
  | .conditional condition yes no => do
    let a ← eval scope condition
    if a.truthy then eval scope yes else eval scope no

/-- The numbers some expressions evaluate to. -/
def evalNumbers (scope : Scope) : List Expr → Except ExpressionError (List Binary64)
  | [] => .ok []
  | e :: es => do
    let a ← eval scope e
    let xs ← evalNumbers scope es
    .ok (a.toNumber :: xs)

end

end Expr

end ReactiveForm
