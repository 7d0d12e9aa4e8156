import ReactiveForm.Numeric.Layout

/-!
# Tokens and the faults of expressions

The words an expression is made of, and everything that can be wrong with one.  A fault names its
cause; the wording is in `ExpressionError.message` alone.  Positions count bytes from the start of
the text, in its usual encoding.
-/

set_option autoImplicit false
namespace ReactiveForm

/-! ## Tokens -/

/-- A word that is no name and no literal. -/
inductive Symbol where
  | dot | comma | opening | closing | question | colon
  | plus | minus | times | divide | remainder
  | not | and | or
  | less | atMost | greater | atLeast | equal | notEqual
deriving DecidableEq

/-- The text of a symbol; equality has one text whether two or three signs were written. -/
def Symbol.text : Symbol → String
  | .dot => "."
  | .comma => ","
  | .opening => "("
  | .closing => ")"
  | .question => "?"
  | .colon => ":"
  | .plus => "+"
  | .minus => "-"
  | .times => "*"
  | .divide => "/"
  | .remainder => "%"
  | .not => "!"
  | .and => "&&"
  | .or => "||"
  | .less => "<"
  | .atMost => "<="
  | .greater => ">"
  | .atLeast => ">="
  | .equal => "=="
  | .notEqual => "!="

/-- **A word of an expression.** -/
inductive Token where
  | name (s : String)
  | number (x : Binary64)
  | text (s : String)
  | symbol (s : Symbol)
deriving DecidableEq

/-- **Bare numbers in text** are always positional and have no point if they are whole. -/
def Layout.bare : Layout where
  positional _ := true
  keepsPoint := false
  tie := .upward

/-- A number as an expression shows it, given the word for infinity. -/
def Binary64.bareText (infinity : String) : Binary64 → String
  | .nan => "NaN"
  | .infinite negative => if negative then "-" ++ infinity else infinity
  | .finite x => String.ofList (x.text .bare)

/-- A token as a message shows it. -/
def Token.describe : Token → String
  | .name s => s
  | .number x => x.bareText "inf"
  | .text s => "\"" ++ s ++ "\""
  | .symbol s => s.text

/-- A token and where it starts. -/
structure Placed where
  token : Token
  position : Nat
deriving DecidableEq

/-! ## Faults -/

/-- The greatest size of an expression, in bytes. -/
def maxExpressionBytes : Nat := 64 * 1024

/-- **How deep expressions may nest.**  Parentheses, prefix operators, conditionals, calls, members
and each operator of a chain count as one level. -/
def maxNesting : Nat := 64

/-- **What is wrong with an expression.**  The last two arise only while one is evaluated. -/
inductive ExpressionError where
  | empty
  | tooLarge (bytes : Nat)
  | tooDeep (position : Nat)
  | unexpected (found expected : String) (position : Nat)
  | unterminated (position : Nat)
  | invalidNumber (raw : String) (position : Nat)
  | unknownFunction (name : String) (position : Nat)
  | trailing (position : Nat)
  | unbound (name : String)
  | wrongArity (name : String) (expected found : Nat)
deriving DecidableEq

/-- The wording of a fault. -/
def ExpressionError.message : ExpressionError → String
  | .empty => "expression is empty"
  | .tooLarge bytes =>
    s!"expression exceeds size limit: {bytes} bytes (max {maxExpressionBytes})"
  | .tooDeep position => s!"expression nesting exceeds limit of {maxNesting} at {position}"
  | .unexpected found expected position =>
    "unexpected token `" ++ found ++ s!"` at {position}, expected " ++ expected
  | .unterminated position => s!"unterminated string literal at {position}"
  | .invalidNumber raw position => "invalid number `" ++ raw ++ s!"` at {position}"
  | .unknownFunction name position => "unknown function `" ++ name ++ s!"` at {position}"
  | .trailing position => s!"unexpected trailing input at {position}"
  | .unbound name => "`" ++ name ++ "` is not a declared dependency"
  | .wrongArity name expected found =>
    name ++ s!" expects {expected} argument(s), got {found}"

end ReactiveForm
