import ReactiveForm.Expression.Lexer
import ReactiveForm.Expression.Syntax

/-!
# From tokens to trees

The grammar, loosest first: the conditional, which groups to the right; six levels of chains, which
group to the left (`precedence`); prefix operators; members; and the operands themselves.  Calls are
written only on the built-in name space, and a parenthesis after anything else is a fault.

## How nesting is counted

Each function takes the level `n` it works at.  An operator of a chain takes the rest of the chain
one level down, since the tree grows to the left there, and so does a member; a prefix operator, a
parenthesis, a conditional and a call take what is inside them one level down.  The level is an
argument, so leaving a construct restores it by itself.  No function is entered above `maxNesting`,
which bounds the recursion: it always goes to a higher level or, on the same level, to a tighter
construct.
-/

set_option autoImplicit false
namespace ReactiveForm

/-! ## Levels of precedence -/

/-- An operator that joins two operands of a chain. -/
inductive ChainOp where
  | binary (op : BinaryOp)
  | logical (op : LogicalOp)
deriving DecidableEq

/-- The tree that an operator makes of two operands. -/
def ChainOp.join : ChainOp → Expr → Expr → Expr
  | .binary op, left, right => .binary op left right
  | .logical op, left, right => .logical op left right

/-- A level of chains: the operators that are read on it. -/
abbrev ChainLevel := List (Symbol × ChainOp)

/-- **The levels of chains**, loosest first. -/
def precedence : List ChainLevel :=
  [[(.or, .logical .or)],
   [(.and, .logical .and)],
   [(.equal, .binary .equal), (.notEqual, .binary .notEqual)],
   [(.less, .binary .less), (.atMost, .binary .atMost), (.greater, .binary .greater),
    (.atLeast, .binary .atLeast)],
   [(.plus, .binary .add), (.minus, .binary .sub)],
   [(.times, .binary .mul), (.divide, .binary .div), (.remainder, .binary .rem)]]

theorem length_precedence : precedence.length = 6 := rfl

/-- The operator of a level that a token stands for. -/
def ChainLevel.op? (level : ChainLevel) : Token → Option ChainOp
  | .symbol s => level.lookup s
  | _ => none

/-- The prefix operator that a token stands for. -/
def prefixOp? : Token → Option UnaryOp
  | .symbol .not => some .not
  | .symbol .minus => some .negate
  | .symbol .plus => some .plus
  | _ => none

/-- The literal that a name stands for. -/
def namedLiteral? : String → Option Literal
  | "true" => some (.bool true)
  | "false" => some (.bool false)
  | "null" | "undefined" => some .null
  | "NaN" => some (.number .nan)
  | "Infinity" => some (.number (.infinite false))
  | _ => none

/-- The name of the built-in name space. -/
def mathName : String := "Math"

/-- The ratio of a circle's circumference to its diameter. -/
def circleConstant : Binary64 := .ofRatio false (884279719003555 * unitsPerOne) (1 <<< 48)

/-- The base of natural logarithms. -/
def eulerConstant : Binary64 := .ofRatio false (6121026514868073 * unitsPerOne) (1 <<< 51)

/-- The constant of the built-in name space with a name. -/
def mathConstant? : String → Option Binary64
  | "PI" => some circleConstant
  | "E" => some eulerConstant
  | _ => none

/-! ## Faults -/

/-- The position of the next token, or that of the end. -/
def nextPosition (finish : Nat) : List Placed → Nat
  | [] => finish
  | t :: _ => t.position

/-- The next token as a message shows it. -/
def nextText : List Placed → String
  | [] => "end of input"
  | t :: _ => t.token.describe

/-- The fault of finding something else than expected. -/
def unexpected (finish : Nat) (expected : String) (ts : List Placed) : ExpressionError :=
  .unexpected (nextText ts) expected (nextPosition finish ts)

/-- What follows an expected symbol. -/
def expectSymbol (finish : Nat) (s : Symbol) (expected : String) :
    List Placed → Except ExpressionError (List Placed)
  | ts@(t :: rest) =>
    if t.token = .symbol s then .ok rest else .error (unexpected finish expected ts)
  | [] => .error (unexpected finish expected [])

/-- An expected name and what follows it. -/
def expectName (finish : Nat) (expected : String) :
    List Placed → Except ExpressionError (String × List Placed)
  | ⟨.name s, _⟩ :: rest => .ok (s, rest)
  | ts => .error (unexpected finish expected ts)

/-! ## The grammar -/

/-- A tree and the tokens that follow it. -/
abbrev Parsed := Except ExpressionError (Expr × List Placed)

/-- The arguments of a call after the opening parenthesis, read one by one with `item`.  There are
no more arguments than tokens, so a bound above their number is never reached. -/
def argumentsWith (finish : Nat) (item : List Placed → Parsed) :
    Nat → List Placed → Except ExpressionError (List Expr × List Placed)
  | 0, ts => .error (unexpected finish "`)` after arguments" ts)
  | bound + 1, ts => do
    let (e, rest) ← item ts
    match rest with
    | ⟨.symbol .comma, _⟩ :: rest =>
      let (es, rest) ← argumentsWith finish item bound rest
      .ok (e :: es, rest)
    | ⟨.symbol .closing, _⟩ :: rest => .ok ([e], rest)
    | rest => .error (unexpected finish "`)` after arguments" rest)

/-- **Members after an operand**, each one level further down, and the fault of a call on it. -/
def membersAfter (finish n : Nat) (object : Expr) : List Placed → Parsed
  | ⟨.symbol .dot, position⟩ :: rest =>
    if n < maxNesting then
      match rest with
      | ⟨.name property, _⟩ :: rest => membersAfter finish (n + 1) (.member object property) rest
      | rest => .error (unexpected finish "property name after `.`" rest)
    else .error (.tooDeep position)
  | ⟨.symbol .opening, position⟩ :: _ =>
    .error (.unknownFunction (object.path?.getD "expression") position)
  | rest => .ok (object, rest)

mutual

/-- **A conditional**, or the chain that could be its condition. -/
def conditional (finish n : Nat) (ts : List Placed) : Parsed := do
  let (condition, rest) ← chain finish precedence n ts
  match rest with
  | ⟨.symbol .question, _⟩ :: rest =>
    if n < maxNesting then
      let (yes, rest) ← conditional finish (n + 1) rest
      let rest ← expectSymbol finish .colon "`:` in conditional expression" rest
      let (no, rest) ← conditional finish (n + 1) rest
      .ok (.conditional condition yes no, rest)
    else .error (.tooDeep (nextPosition finish rest))
  | rest => .ok (condition, rest)
termination_by (maxNesting - n) * 16 + 12
decreasing_by
  · rw [length_precedence]; omega
  · omega
  · omega

/-- **A chain** of the first of some levels, its operands being chains of the others. -/
def chain (finish : Nat) (levels : List ChainLevel) (n : Nat) (ts : List Placed) : Parsed :=
  match levels with
  | [] => prefixed finish n ts
  | level :: levels => do
    let (left, rest) ← chain finish levels n ts
    chainAfter finish level levels n left rest
termination_by (maxNesting - n) * 16 + 5 + levels.length

/-- The rest of a chain after its first operands, each operator one level further down. -/
def chainAfter (finish : Nat) (level : ChainLevel) (levels : List ChainLevel) (n : Nat)
    (left : Expr) (ts : List Placed) : Parsed :=
  match ts with
  | [] => .ok (left, [])
  | t :: rest =>
    match level.op? t.token with
    | none => .ok (left, t :: rest)
    | some op =>
      if n < maxNesting then do
        let (right, rest) ← chain finish levels (n + 1) rest
        chainAfter finish level levels (n + 1) (op.join left right) rest
      else .error (.tooDeep t.position)
termination_by (maxNesting - n) * 16 + 5 + levels.length

/-- **Prefix operators** and what they are applied to. -/
def prefixed (finish n : Nat) (ts : List Placed) : Parsed :=
  match ts with
  | [] => .error (unexpected finish "operand" [])
  | t :: rest =>
    match prefixOp? t.token with
    | none => do
      let (operand, rest) ← operand finish n (t :: rest)
      membersAfter finish n operand rest
    | some op =>
      if n < maxNesting then do
        let (e, rest) ← prefixed finish (n + 1) rest
        .ok (.unary op e, rest)
      else .error (.tooDeep t.position)
termination_by (maxNesting - n) * 16 + 4

/-- **An operand**: a literal, a name, a member of the built-in name space, or an expression in
parentheses. -/
def operand (finish n : Nat) (ts : List Placed) : Parsed :=
  match ts with
  | ⟨.number x, _⟩ :: rest => .ok (.literal (.number x), rest)
  | ⟨.text s, _⟩ :: rest => .ok (.literal (.text s), rest)
  | ⟨.name s, position⟩ :: rest =>
    match namedLiteral? s with
    | some l => .ok (.literal l, rest)
    | none =>
      if s = mathName then do
        let rest ← expectSymbol finish .dot "`.` after `Math`" rest
        let (member, after) ← expectName finish "`Math` member name" rest
        match mathConstant? member, MathFunction.ofName? member with
        | some x, _ => .ok (.literal (.number x), after)
        | none, none =>
          .error (.unknownFunction (mathName ++ "." ++ member) (nextPosition finish rest))
        | none, some function =>
          let inside ← expectSymbol finish .opening "`(` after `Math` function" after
          if n < maxNesting then
            match inside with
            | ⟨.symbol .closing, _⟩ :: rest => .ok (.call function [], rest)
            | inside =>
              let (es, rest) ←
                argumentsWith finish (fun ts ↦ conditional finish (n + 1) ts) (inside.length + 1)
                  inside
              .ok (.call function es, rest)
          else .error (.tooDeep position)
      else .ok (.name s, rest)
  | ⟨.symbol .opening, position⟩ :: rest =>
    if n < maxNesting then do
      let (e, rest) ← conditional finish (n + 1) rest
      let rest ← expectSymbol finish .closing "`)`" rest
      .ok (e, rest)
    else .error (.tooDeep position)
  | ts => .error (unexpected finish "operand" ts)
termination_by (maxNesting - n) * 16 + 3

end

/-! ### One step at a time

The functions above call each other on a measure, so they do not compute by themselves.  These
equations take one step of them, according to what comes next. -/

section

variable {finish n : Nat} {level : ChainLevel} {levels : List ChainLevel} {left : Expr} {t : Placed}
  {rest : List Placed}

theorem chainAfter_of_none (hop : level.op? t.token = none) :
    chainAfter finish level levels n left (t :: rest) = .ok (left, t :: rest) := by
  rw [chainAfter, hop]

theorem chainAfter_of_some {op : ChainOp} (hop : level.op? t.token = some op) :
    chainAfter finish level levels n left (t :: rest) =
      if n < maxNesting then
        chain finish levels (n + 1) rest >>= fun right ↦
          chainAfter finish level levels (n + 1) (op.join left right.1) right.2
      else .error (.tooDeep t.position) := by
  rw [chainAfter, hop]

theorem prefixed_of_none (hop : prefixOp? t.token = none) :
    prefixed finish n (t :: rest) =
      operand finish n (t :: rest) >>= fun object ↦ membersAfter finish n object.1 object.2 := by
  rw [prefixed, hop]

theorem prefixed_of_some {op : UnaryOp} (hop : prefixOp? t.token = some op) :
    prefixed finish n (t :: rest) =
      if n < maxNesting then
        prefixed finish (n + 1) rest >>= fun inner ↦ .ok (.unary op inner.1, inner.2)
      else .error (.tooDeep t.position) := by
  rw [prefixed, hop]

theorem operand_number (x : Binary64) {position : Nat} :
    operand finish n (⟨.number x, position⟩ :: rest) = .ok (.literal (.number x), rest) := by
  rw [operand]

theorem operand_text (s : String) {position : Nat} :
    operand finish n (⟨.text s, position⟩ :: rest) = .ok (.literal (.text s), rest) := by
  rw [operand]

theorem operand_of_namedLiteral {s : String} {l : Literal} {position : Nat}
    (hl : namedLiteral? s = some l) :
    operand finish n (⟨.name s, position⟩ :: rest) = .ok (.literal l, rest) := by
  rw [operand, hl]

theorem operand_of_ne_math {s : String} {position : Nat} (hl : namedLiteral? s = none)
    (hs : s ≠ mathName) : operand finish n (⟨.name s, position⟩ :: rest) = .ok (.name s, rest) := by
  rw [operand, hl]
  exact if_neg hs

theorem operand_opening {position : Nat} :
    operand finish n (⟨.symbol .opening, position⟩ :: rest) =
      if n < maxNesting then
        conditional finish (n + 1) rest >>= fun inner ↦
          expectSymbol finish .closing "`)`" inner.2 >>= fun after ↦ .ok (inner.1, after)
      else .error (.tooDeep position) := by
  rw [operand]

end

/-! ## Texts -/

/-- The tree of a list of tokens, all of which it takes. -/
def exprOfTokens (finish : Nat) (ts : List Placed) : Except ExpressionError Expr := do
  let (e, rest) ← conditional finish 0 ts
  match rest with
  | [] => .ok e
  | t :: _ => .error (.trailing t.position)

/-- **The tree of the text of an expression.** -/
def exprOfText (source : String) : Except ExpressionError Expr := do
  if maxExpressionBytes < source.utf8ByteSize then throw (.tooLarge source.utf8ByteSize)
  let (ts, finish) ← tokens source.toList
  exprOfTokens finish ts

/-- **An expression**: its text and the tree of it. -/
structure Expression where
  source : String
  tree : Expr

/-- Reads an expression. -/
def Expression.ofText (source : String) : Except ExpressionError Expression :=
  (exprOfText source).map fun tree ↦ ⟨source, tree⟩

end ReactiveForm
