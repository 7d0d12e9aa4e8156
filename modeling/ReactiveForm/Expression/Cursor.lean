import ReactiveForm.Expression.Parser

/-!
# Reading with a cursor

The same grammar as in `ReactiveForm.Expression.Parser`, read by a program that changes a state
instead of handing on what is left: a cursor says which word comes next and how deep the reading is
nested.  The depth is raised in two ways.  What is inside of a conditional, a prefix operator, a
parenthesis or a call is read one level further down (`readWithin`), and so is what follows each
operator of a chain and each point before a member; in every case the depth is set back afterwards,
whether or not there was a fault.

The loops and the mutual recursion of the program are written as they are: nothing that the program
reads would bound them.  Each function is given how deep further calls may be nested, a loop calling
itself for the next round, and has no result where that is not enough (`outOfCalls`).  That there is
a depth which is enough, and where the cursor stands on its way, is to be proved; so a reading keeps
a trail.
-/

set_option autoImplicit false
namespace ReactiveForm

/-! ## Words and cursors -/

/-- **A stream of words** with their positions, at the end of which there is an end mark.  There may
be more end marks, which stand among the words. -/
structure TokenStream where
  entries : List (Option Token × Nat)
  finish : Nat

/-- The word at an index, none for an end mark, and its position. -/
def TokenStream.entry (s : TokenStream) (index : Nat) : Option Token × Nat :=
  s.entries.getD index (none, s.finish)

/-- The number of words and end marks. -/
def TokenStream.size (s : TokenStream) : Nat := s.entries.length + 1

/-- The stream of some words. -/
def TokenStream.ofTokens (finish : Nat) (ts : List Placed) : TokenStream :=
  ⟨ts.map fun t ↦ (some t.token, t.position), finish⟩

/-- **A cursor**: which word comes next, and how deep the reading is nested. -/
structure Cursor where
  index : Nat
  nesting : Nat
deriving DecidableEq

/-- **A trail**: where the cursor is, and where it was before, the latest first. -/
structure Trail where
  now : Cursor
  past : List Cursor

/-- The trail of a reading that starts at the first word. -/
def Trail.start : Trail := ⟨⟨0, 0⟩, []⟩

/-- All places of a trail. -/
def Trail.places (t : Trail) : List Cursor := t.now :: t.past

/-- **Steps** go on from a trail and come to a result, or to none. -/
abbrev Steps (α : Type) := StateT Trail Option α

/-- A result or a fault. -/
abbrev Answer (α : Type) := Except ExpressionError α

/-- **A reading**: steps to an answer, a fault being the end of what is read. -/
abbrev Reading (α : Type) := ExceptT ExpressionError Steps α

/-! ## Single steps -/

/-- The word under the cursor as a message shows it. -/
def describeEntry : Option Token → String
  | none => "end of input"
  | some t => t.describe

/-- No result: there are no calls left. -/
def outOfCalls {α : Type} : Steps α := fun _ ↦ none

/-- Where the cursor is. -/
def here : Steps Cursor := fun t ↦ some (t.now, t)

/-- Puts the cursor to another place. -/
def goTo (c : Cursor) : Steps Unit := fun t ↦ some ((), ⟨c, t.places⟩)

/-- Sets the depth back. -/
def restore (nesting : Nat) : Steps Unit := do goTo ⟨(← here).index, nesting⟩

/-- Goes one level further down, unless that is too deep. -/
def descend (position : Nat) : Reading Unit := do
  let c ← here
  if maxNesting < c.nesting + 1 then throw (.tooDeep position)
  goTo ⟨c.index, c.nesting + 1⟩

namespace TokenStream

variable (s : TokenStream)

/-- The word under the cursor. -/
def current : Reading (Option Token × Nat) := do return s.entry (← here).index

/-- Passes over a word, but never over the end mark at the end. -/
def advance : Reading Unit := do
  let c ← here
  if c.index + 1 < s.size then goTo ⟨c.index + 1, c.nesting⟩

/-- The fault of finding something else than expected. -/
def mismatch {α : Type} (expected : String) : Reading α := do
  let (token?, position) ← s.current
  throw (.unexpected (describeEntry token?) expected position)

/-- Passes over a symbol if it is there. -/
def passes (symbol : Symbol) : Reading Bool := do
  if (← s.current).1 = some (.symbol symbol) then
    s.advance
    return true
  else return false

/-- Passes over an expected symbol. -/
def readSymbol (symbol : Symbol) (expected : String) : Reading Unit := do
  if ← s.passes symbol then return ()
  else s.mismatch expected

/-- Passes over an expected name. -/
def readName (expected : String) : Reading String := do
  match (← s.current).1 with
  | some (.name name) =>
    s.advance
    return name
  | _ => s.mismatch expected

/-! ## The grammar

The last argument of each function says how deep further calls may be nested. -/

/-- What can be inside of something: the branches of a conditional, what a prefix operator is
applied to, what is in parentheses, the arguments of a call. -/
inductive Inside where
  | branches (condition : Expr)
  | operand (op : UnaryOp)
  | parentheses
  | arguments (function : MathFunction)

/-- Members after an operand, which leave the depth raised. -/
def readMembersAfter (object : Expr) : Nat → Reading Expr
  | 0 => outOfCalls
  | calls + 1 => do
    let (token?, position) ← s.current
    match token? with
    | some (.symbol .dot) =>
      descend position
      s.advance
      let property ← s.readName "property name after `.`"
      readMembersAfter (.member object property) calls
    | some (.symbol .opening) => throw (.unknownFunction (object.path?.getD "expression") position)
    | _ => return object

mutual

/-- A conditional, or the chain that could be its condition. -/
def readConditional : Nat → Reading Expr
  | 0 => outOfCalls
  | calls + 1 => do
    let condition ← (readChain precedence calls : Reading Expr)
    if ← s.passes .question then
      let (_, position) ← s.current
      readWithin position (.branches condition) calls
    else return condition

/-- A chain of the first of some levels; the depth is set back after it. -/
def readChain (levels : List ChainLevel) : Nat → Steps (Answer Expr)
  | 0 => outOfCalls
  | calls + 1 => do
    match levels with
    | [] => readPrefixed calls
    | level :: levels =>
      let base ← here
      let result ← (readOperands level levels calls : Steps (Answer Expr))
      restore base.nesting
      return result

/-- The operands of a chain, which leave the depth raised. -/
def readOperands (level : ChainLevel) (levels : List ChainLevel) : Nat → Reading Expr
  | 0 => outOfCalls
  | calls + 1 => do
    let left ← (readChain levels calls : Reading Expr)
    readOperandsAfter level levels left calls

/-- The operands of a chain after some of them. -/
def readOperandsAfter (level : ChainLevel) (levels : List ChainLevel) (left : Expr) :
    Nat → Reading Expr
  | 0 => outOfCalls
  | calls + 1 => do
    let (token?, position) ← s.current
    match token?.bind level.op? with
    | none => return left
    | some op =>
      descend position
      s.advance
      let right ← (readChain levels calls : Reading Expr)
      readOperandsAfter level levels (op.join left right) calls

/-- Prefix operators and what they are applied to. -/
def readPrefixed : Nat → Reading Expr
  | 0 => outOfCalls
  | calls + 1 => do
    let (token?, position) ← s.current
    match token?.bind prefixOp? with
    | none => readPostfix calls
    | some op =>
      s.advance
      readWithin position (.operand op) calls

/-- An operand and its members; the depth is set back after them. -/
def readPostfix : Nat → Steps (Answer Expr)
  | 0 => outOfCalls
  | calls + 1 => do
    let base ← here
    let result ← (readMembers calls : Steps (Answer Expr))
    restore base.nesting
    return result

/-- An operand and its members, which leave the depth raised. -/
def readMembers : Nat → Reading Expr
  | 0 => outOfCalls
  | calls + 1 => do
    let object ← readOperand calls
    s.readMembersAfter object calls

/-- An operand. -/
def readOperand : Nat → Reading Expr
  | 0 => outOfCalls
  | calls + 1 => do
    let (token?, position) ← s.current
    match token? with
    | some (.number x) =>
      s.advance
      return .literal (.number x)
    | some (.text text) =>
      s.advance
      return .literal (.text text)
    | some (.name name) =>
      s.advance
      match namedLiteral? name with
      | some l => return .literal l
      | none => if name = mathName then readMath position calls else return .name name
    | some (.symbol .opening) =>
      s.advance
      readWithin position .parentheses calls
    | _ => throw (.unexpected (describeEntry token?) "operand" position)

/-- A member of the built-in name space, whose name is passed over already. -/
def readMath (position : Nat) : Nat → Reading Expr
  | 0 => outOfCalls
  | calls + 1 => do
    s.readSymbol .dot "`.` after `Math`"
    let (_, memberPosition) ← s.current
    let member ← s.readName "`Math` member name"
    match mathConstant? member, MathFunction.ofName? member with
    | some x, _ => return .literal (.number x)
    | none, none => throw (.unknownFunction (mathName ++ "." ++ member) memberPosition)
    | none, some function =>
      s.readSymbol .opening "`(` after `Math` function"
      readWithin position (.arguments function) calls

/-- The arguments of a call. -/
def readArguments : Nat → Reading (List Expr)
  | 0 => outOfCalls
  | calls + 1 => do
    if ← s.passes .closing then return []
    else readArgumentsFrom calls

/-- The arguments of a call, of which there is one more. -/
def readArgumentsFrom : Nat → Reading (List Expr)
  | 0 => outOfCalls
  | calls + 1 => do
    let e ← readConditional calls
    if ← s.passes .comma then
      let es ← readArgumentsFrom calls
      return e :: es
    else
      s.readSymbol .closing "`)` after arguments"
      return [e]

/-- What is inside of something, one level further down; the depth is set back after it. -/
def readWithin (position : Nat) (inside : Inside) : Nat → Steps (Answer Expr)
  | 0 => outOfCalls
  | calls + 1 => do
    let base ← here
    match ← (descend position : Steps (Answer Unit)) with
    | .error fault => return .error fault
    | .ok () =>
      let result ← (readInside inside calls : Steps (Answer Expr))
      restore base.nesting
      return result

/-- What is inside of something, on the level where the cursor is. -/
def readInside (inside : Inside) : Nat → Reading Expr
  | 0 => outOfCalls
  | calls + 1 => do
    match inside with
    | .branches condition =>
      let yes ← readConditional calls
      s.readSymbol .colon "`:` in conditional expression"
      let no ← readConditional calls
      return .conditional condition yes no
    | .operand op =>
      let e ← readPrefixed calls
      return .unary op e
    | .parentheses =>
      let e ← readConditional calls
      s.readSymbol .closing "`)`"
      return e
    | .arguments function =>
      let es ← readArguments calls
      return .call function es

end

/-- The tree of all words up to an end mark. -/
def readAll (calls : Nat) : Reading Expr := do
  let e ← s.readConditional calls
  let (token?, position) ← s.current
  match token? with
  | none => return e
  | some _ => throw (.trailing position)

end TokenStream

end ReactiveForm
