import ReactiveForm.Numeric.Binary64

/-!
# Expressions

The trees that expressions are read into.  An expression reads the values of some fields by name,
takes members of records and texts, computes with operators, and calls the functions of one
built-in name space; there is nothing else it could call.
-/

set_option autoImplicit false
namespace ReactiveForm

/-- Operators before their one operand. -/
inductive UnaryOp where
  | not | negate | plus
deriving DecidableEq

/-- Operators that evaluate both their operands. -/
inductive BinaryOp where
  | add | sub | mul | div | rem
  | less | atMost | greater | atLeast
  | equal | notEqual
deriving DecidableEq

/-- Operators that evaluate the right operand only if the left one does not settle the result. -/
inductive LogicalOp where
  | and | or
deriving DecidableEq

/-- The functions that can be called. -/
inductive MathFunction where
  | abs | ceil | floor | round | sqrt | trunc | sign | max | min | pow
deriving DecidableEq

namespace MathFunction

/-- The name of a function, within its name space. -/
def name : MathFunction → String
  | .abs => "abs"
  | .ceil => "ceil"
  | .floor => "floor"
  | .round => "round"
  | .sqrt => "sqrt"
  | .trunc => "trunc"
  | .sign => "sign"
  | .max => "max"
  | .min => "min"
  | .pow => "pow"

/-- All functions. -/
def all : List MathFunction :=
  [.abs, .ceil, .floor, .round, .sqrt, .trunc, .sign, .max, .min, .pow]

/-- The function with a name. -/
def ofName? (name : String) : Option MathFunction := all.find? fun f ↦ f.name == name

end MathFunction

/-- Values written in an expression. -/
inductive Literal where
  | number (x : Binary64)
  | text (s : String)
  | bool (flag : Bool)
  | null
deriving DecidableEq

/-- **An expression.** -/
inductive Expr where
  | literal (l : Literal)
  | name (s : String)
  | member (object : Expr) (property : String)
  | call (function : MathFunction) (arguments : List Expr)
  | unary (op : UnaryOp) (operand : Expr)
  | binary (op : BinaryOp) (left right : Expr)
  | logical (op : LogicalOp) (left right : Expr)
  | conditional (condition yes no : Expr)
deriving Inhabited

namespace Expr

/-- The path that a chain of members written on a name spells. -/
def path? : Expr → Option String
  | .name s => some s
  | .member object property => object.path?.map fun p ↦ p ++ "." ++ property
  | _ => none

mutual

/-- The nodes on the longest way from the root to a leaf. -/
def height : Expr → Nat
  | .literal _ | .name _ => 1
  | .member object _ => 1 + height object
  | .call _ arguments => 1 + maxHeight arguments
  | .unary _ operand => 1 + height operand
  | .binary _ left right | .logical _ left right => 1 + max (height left) (height right)
  | .conditional condition yes no => 1 + max (height condition) (max (height yes) (height no))

/-- The greatest height of some expressions, zero if there are none. -/
def maxHeight : List Expr → Nat
  | [] => 0
  | e :: es => max (height e) (maxHeight es)

end

mutual

/-- **The names an expression reads**, in the order in which they are written. -/
def names : Expr → List String
  | .literal _ => []
  | .name s => [s]
  | .member object _ => names object
  | .call _ arguments => allNames arguments
  | .unary _ operand => names operand
  | .binary _ left right | .logical _ left right => names left ++ names right
  | .conditional condition yes no => names condition ++ (names yes ++ names no)

/-- The names some expressions read. -/
def allNames : List Expr → List String
  | [] => []
  | e :: es => names e ++ allNames es

end

end Expr

end ReactiveForm
