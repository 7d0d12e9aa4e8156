import Mathlib.Data.List.Basic
import ReactiveForm.Expression.Parser

/-!
# The grammar of expressions

What an expression is, apart from how one is read.  From loosest to tightest there are the
conditional, which groups to the right; the chains of `||`, of `&&`, of equalities, of relations, of
sums and of products, which group to the left; prefix operators; members; and the operands, which
are literals, names, what the built-in name space offers and expressions in parentheses.  Nothing
outside the built-in name space is called.

`Phrase` derives the trees that some tokens have on a level.  Two numbers come with a derivation and
restrict none: how many links the chain of operators or members has, and how many levels the phrase
nests, where a parenthesis, a prefix operator, a conditional, a call, a member and each operator of
a chain are a level.  A link nests what comes behind it, not what comes before it.

Every tree that is derived at all is derived from tokens that put all its parts in parentheses, and
so written it nests at least as deep as it is high (`Derives.counted`).
-/

set_option autoImplicit false
namespace ReactiveForm

/-! ## Levels and words -/

/-- **The levels of the grammar**, loosest first. -/
inductive Level where
  | conditional
  | disjunction | conjunction | equality | relation | sum | product
  | prefixed | members | operand
deriving DecidableEq

/-- The next tighter level, whose phrases are phrases of this one as well. -/
def Level.tighter? : Level → Option Level
  | conditional => some disjunction
  | disjunction => some conjunction
  | conjunction => some equality
  | equality => some relation
  | relation => some sum
  | sum => some product
  | product => some prefixed
  | prefixed => some members
  | members => some operand
  | operand => none

/-- The place of a level, from loose to tight. -/
def Level.rank : Level → Nat
  | conditional => 0
  | disjunction => 1
  | conjunction => 2
  | equality => 3
  | relation => 4
  | sum => 5
  | product => 6
  | prefixed => 7
  | members => 8
  | operand => 9

theorem Level.rank_le (level : Level) : level.rank ≤ 9 := by
  cases level <;> decide

theorem Level.rank_injective {level other : Level} (h : level.rank = other.rank) :
    level = other := by
  cases level <;> cases other <;> first | rfl | cases h

theorem Level.rank_of_tighter? {level next : Level} (h : level.tighter? = some next) :
    next.rank = level.rank + 1 := by
  cases level <;> cases h <;> rfl

theorem Level.exists_tighter {level : Level} (h : level.rank < 9) :
    ∃ next, level.tighter? = some next ∧ next.rank = level.rank + 1 := by
  cases level <;> first | exact ⟨_, rfl, rfl⟩ | exact absurd h (by decide)

/-- Whether an operand can start with a token. -/
def Token.startsOperand : Token → Bool
  | .symbol s => s = .opening
  | _ => true

/-- How an operator before its operand is written. -/
def UnaryOp.symbol : UnaryOp → Symbol
  | .not => .not
  | .negate => .minus
  | .plus => .plus

/-- How an operator between two operands is written. -/
def ChainOp.symbol : ChainOp → Symbol
  | .logical .or => .or
  | .logical .and => .and
  | .binary .equal => .equal
  | .binary .notEqual => .notEqual
  | .binary .less => .less
  | .binary .atMost => .atMost
  | .binary .greater => .greater
  | .binary .atLeast => .atLeast
  | .binary .add => .plus
  | .binary .sub => .minus
  | .binary .mul => .times
  | .binary .div => .divide
  | .binary .rem => .remainder

/-- The level whose chains an operator links. -/
def ChainOp.level : ChainOp → Level
  | .logical .or => .disjunction
  | .logical .and => .conjunction
  | .binary .equal | .binary .notEqual => .equality
  | .binary .less | .binary .atMost | .binary .greater | .binary .atLeast => .relation
  | .binary .add | .binary .sub => .sum
  | .binary .mul | .binary .div | .binary .rem => .product

/-- Whether the phrases of a level are chains of links. -/
def Level.hasLinks : Level → Bool
  | conditional | prefixed | operand => false
  | _ => true

theorem ChainOp.hasLinks_level (op : ChainOp) : op.level.hasLinks = true := by
  rcases op with op | op <;> cases op <;> rfl

theorem ChainOp.exists_tighter_level (op : ChainOp) :
    ∃ next, op.level.tighter? = some next := by
  rcases op with op | op <;> cases op <;> exact ⟨_, rfl⟩

/-- The names that are literals. -/
inductive Keyword : String → Literal → Prop where
  | true : Keyword "true" (.bool true)
  | false : Keyword "false" (.bool false)
  | null : Keyword "null" .null
  | undefined : Keyword "undefined" .null
  | nan : Keyword "NaN" (.number .nan)
  | infinity : Keyword "Infinity" (.number (.infinite false))

/-- The numbers that the built-in name space has names for. -/
inductive Constant : String → Binary64 → Prop where
  | circle : Constant "PI" circleConstant
  | euler : Constant "E" eulerConstant

/-- The tokens of a member of the built-in name space. -/
def mathMember (name : String) : List Token := [.name "Math", .symbol .dot, .name name]

/-- An argument of a call: the levels it nests, its tokens and its tree. -/
structure Argument where
  depth : Nat
  tokens : List Token
  tree : Expr

/-- Some lists of tokens with commas between them. -/
def separated (parts : List (List Token)) : List Token := [.symbol .comma].intercalate parts

theorem separated_singleton (part : List Token) : separated [part] = part := by
  simp [separated, List.intercalate]

theorem separated_cons {part : List Token} {parts : List (List Token)} (h : parts ≠ []) :
    separated (part :: parts) = part ++ .symbol .comma :: separated parts := by
  cases parts with
  | nil => exact absurd rfl h
  | cons => simp [separated, List.intercalate]

theorem exists_separated_eq_append (part : List Token) (parts : List (List Token)) :
    ∃ tail, separated (part :: parts) = part ++ tail := by
  cases parts with
  | nil => exact ⟨[], by rw [separated_singleton, List.append_nil]⟩
  | cons => exact ⟨_, separated_cons (List.cons_ne_nil _ _)⟩

theorem length_le_length_separated (parts : List (List Token)) :
    parts.length ≤ (separated parts).length + 1 := by
  induction parts with
  | nil => exact Nat.zero_le _
  | cons part parts ih =>
    by_cases hparts : parts = []
    · simp [hparts]
    · simp [separated_cons hparts]
      omega

/-! ## Phrases -/

/-- **The phrases of the grammar**: on a level, with some links and nesting some levels, the tokens
have the tree. -/
inductive Phrase : Level → Nat → Nat → List Token → Expr → Prop where
  | tighter {level next : Level} {links depth : Nat} {ts : List Token} {e : Expr}
      (hnext : level.tighter? = some next) (h : Phrase next links depth ts e) :
      Phrase level 0 depth ts e
  | choice {links depth depth₁ depth₂ : Nat} {cs ys ns : List Token} {c y n : Expr}
      (hcondition : Phrase .disjunction links depth cs c) (hyes : Phrase .conditional 0 depth₁ ys y)
      (hno : Phrase .conditional 0 depth₂ ns n) :
      Phrase .conditional 0 (max depth (max depth₁ depth₂ + 1))
        (cs ++ .symbol .question :: (ys ++ .symbol .colon :: ns)) (.conditional c y n)
  | link {level next : Level} {links links' depth depth' : Nat} {ls rs : List Token} {l r : Expr}
      (op : ChainOp) (hlevel : op.level = level) (hnext : level.tighter? = some next)
      (hleft : Phrase level links depth ls l) (hright : Phrase next links' depth' rs r) :
      Phrase level (links + 1) (max depth (links + 1 + depth'))
        (ls ++ .symbol op.symbol :: rs) (op.join l r)
  | unary {links depth : Nat} {ts : List Token} {e : Expr} (op : UnaryOp)
      (h : Phrase .prefixed links depth ts e) :
      Phrase .prefixed 0 (depth + 1) (.symbol op.symbol :: ts) (.unary op e)
  | member {links depth : Nat} {ts : List Token} {e : Expr} (property : String)
      (h : Phrase .members links depth ts e) :
      Phrase .members (links + 1) (max depth (links + 1))
        (ts ++ [.symbol .dot, .name property]) (.member e property)
  | number (x : Binary64) : Phrase .operand 0 0 [.number x] (.literal (.number x))
  | text (s : String) : Phrase .operand 0 0 [.text s] (.literal (.text s))
  | keyword {s : String} {l : Literal} (h : Keyword s l) :
      Phrase .operand 0 0 [.name s] (.literal l)
  | name {s : String} (hkeyword : ∀ l, ¬Keyword s l) (hmath : s ≠ "Math") :
      Phrase .operand 0 0 [.name s] (.name s)
  | constant {s : String} {x : Binary64} (h : Constant s x) :
      Phrase .operand 0 0 (mathMember s) (.literal (.number x))
  | call (f : MathFunction) (arguments : List Argument)
      (h : ∀ a ∈ arguments, Phrase .conditional 0 a.depth a.tokens a.tree) :
      Phrase .operand 0 ((arguments.map (·.depth)).foldr max 0 + 1)
        (mathMember f.name ++
          .symbol .opening :: (separated (arguments.map (·.tokens)) ++ [.symbol .closing]))
        (.call f (arguments.map (·.tree)))
  | parentheses {depth : Nat} {ts : List Token} {e : Expr} (h : Phrase .conditional 0 depth ts e) :
      Phrase .operand 0 (depth + 1) (.symbol .opening :: (ts ++ [.symbol .closing])) e

/-- **Some tokens derive a tree.** -/
def Derives (ts : List Token) (e : Expr) : Prop := ∃ depth, Phrase .conditional 0 depth ts e

namespace Phrase

variable {level : Level} {links depth : Nat} {ts : List Token} {e : Expr}

/-- Each link of a chain is a level. -/
theorem links_le_depth (h : Phrase level links depth ts e) : links ≤ depth := by
  cases h with
  | link => exact Nat.le_trans (Nat.le_add_right _ _) (Nat.le_max_right _ _)
  | member => exact Nat.le_max_right _ _
  | _ => exact Nat.zero_le _

/-- A phrase is a phrase of every looser level. -/
theorem loosen {level next : Level} (h : Phrase next links depth ts e)
    (hrank : level.rank ≤ next.rank) : ∃ links, Phrase level links depth ts e := by
  obtain ⟨n, hn⟩ := Nat.exists_eq_add_of_le hrank
  clear hrank
  induction n generalizing level with
  | zero =>
    obtain rfl := Level.rank_injective hn
    exact ⟨links, h⟩
  | succ n ih =>
    obtain ⟨between, hbetween, hrank⟩ := Level.exists_tighter (Nat.lt_of_lt_of_le
      (hn ▸ Nat.lt_add_of_pos_right n.succ_pos) next.rank_le)
    obtain ⟨links, h⟩ := @ih between (by omega)
    exact ⟨0, .tighter hbetween h⟩

/-- The first token of a phrase starts an operand, or is a prefix operator where one can stand. -/
theorem starts (h : Phrase level links depth ts e) : ∃ t tail, ts = t :: tail ∧
    (t.startsOperand = true ∨ level.rank ≤ 7 ∧ ∃ op : UnaryOp, t = .symbol op.symbol) := by
  induction h with
  | @tighter level next _ _ _ _ hnext _ ih =>
    obtain ⟨t, tail, rfl, h⟩ := ih
    have hrank := Level.rank_of_tighter? hnext
    exact ⟨t, tail, rfl, h.imp_right fun ⟨hnextRank, hop⟩ ↦ ⟨by omega, hop⟩⟩
  | choice _ _ _ ih =>
    obtain ⟨t, tail, rfl, h⟩ := ih
    exact ⟨t, _, rfl, h.imp_right fun h ↦ ⟨by decide, h.2⟩⟩
  | link _ _ _ _ _ ih =>
    obtain ⟨t, tail, rfl, h⟩ := ih
    exact ⟨t, _, rfl, h⟩
  | unary op => exact ⟨_, _, rfl, .inr ⟨by decide, op, rfl⟩⟩
  | member _ _ ih =>
    obtain ⟨t, tail, rfl, h⟩ := ih
    exact ⟨t, _, rfl, h⟩
  | _ => exact ⟨_, _, rfl, .inl rfl⟩

/-- Where there are no chains, there are no links. -/
theorem links_eq_zero (h : Phrase level links depth ts e) (hlevel : level.hasLinks = false) :
    links = 0 := by
  cases h with
  | link op hop =>
    rw [← hop, op.hasLinks_level] at hlevel
    cases hlevel
  | member => cases hlevel
  | _ => rfl

end Phrase

/-! ## Full parentheses -/

/-- The token of a literal.  A number is its own token, also one that is infinite or not-a-number,
which a text writes as a name. -/
def Literal.token : Literal → Token
  | .number x => .number x
  | .text s => .text s
  | .bool true => .name "true"
  | .bool false => .name "false"
  | .null => .name "null"

/-- Some tokens in parentheses. -/
def inParentheses (ts : List Token) : List Token :=
  .symbol .opening :: (ts ++ [.symbol .closing])

namespace Expr

mutual

/-- **An expression with all its parts in parentheses.** -/
def parenthesized : Expr → List Token
  | .literal l => [l.token]
  | .name s => [.name s]
  | .member object property =>
    inParentheses (parenthesized object) ++ [.symbol .dot, .name property]
  | .call f arguments =>
    mathMember f.name ++
      .symbol .opening :: (separated (allParenthesized arguments) ++ [.symbol .closing])
  | .unary op operand => .symbol op.symbol :: inParentheses (parenthesized operand)
  | .binary op left right =>
    inParentheses (parenthesized left) ++
      .symbol (ChainOp.binary op).symbol :: inParentheses (parenthesized right)
  | .logical op left right =>
    inParentheses (parenthesized left) ++
      .symbol (ChainOp.logical op).symbol :: inParentheses (parenthesized right)
  | .conditional condition yes no =>
    inParentheses (parenthesized condition) ++
      .symbol .question :: (inParentheses (parenthesized yes) ++
        .symbol .colon :: inParentheses (parenthesized no))

/-- Some expressions, each with all its parts in parentheses. -/
def allParenthesized : List Expr → List (List Token)
  | [] => []
  | e :: es => parenthesized e :: allParenthesized es

end

end Expr

theorem maxHeight_le {arguments : List Argument} {bound : Nat}
    (h : ∀ a ∈ arguments, a.tree.height ≤ bound) :
    Expr.maxHeight (arguments.map (·.tree)) ≤ bound := by
  induction arguments with
  | nil => exact Nat.zero_le _
  | cons a arguments ih =>
    obtain ⟨ha, hothers⟩ := List.forall_mem_cons.1 h
    rw [List.map_cons, Expr.maxHeight]
    exact Nat.max_le.2 ⟨ha, ih hothers⟩

theorem depth_le_foldr {arguments : List Argument} {a : Argument} (h : a ∈ arguments) :
    a.depth ≤ (arguments.map (·.depth)).foldr max 0 := by
  induction arguments with
  | nil => cases h
  | cons b arguments ih =>
    rw [List.map_cons, List.foldr_cons]
    rcases List.mem_cons.1 h with rfl | h
    · exact Nat.le_max_left _ _
    · exact Nat.le_trans (ih h) (Nat.le_max_right _ _)

theorem height_join (op : ChainOp) (l r : Expr) :
    (op.join l r).height = 1 + max l.height r.height := by
  cases op <;> rw [ChainOp.join, Expr.height]

/-- **Some tokens derive a tree, and each level of the tree is counted** by the nesting. -/
def DerivesCounted (ts : List Token) (e : Expr) : Prop :=
  ∃ depth, Phrase .conditional 0 depth ts e ∧ e.height ≤ depth + 1

namespace DerivesCounted

variable {level : Level} {links depth : Nat} {ts : List Token} {e : Expr}

theorem ofPhrase (h : Phrase level links depth ts e) (hheight : e.height ≤ depth + 1) :
    DerivesCounted ts e := by
  cases level with
  | conditional => exact ⟨depth, h.links_eq_zero rfl ▸ h, hheight⟩
  | _ =>
    obtain ⟨links, h⟩ := h.loosen (show Level.disjunction.rank ≤ _ by decide)
    exact ⟨depth, .tighter rfl h, hheight⟩

/-- In parentheses, what is derived is a phrase of every level, and there is a level to spare. -/
theorem inParentheses (h : DerivesCounted ts e) (level : Level) :
    ∃ links depth, Phrase level links depth (inParentheses ts) e ∧ e.height ≤ depth := by
  obtain ⟨depth, h, hheight⟩ := h
  obtain ⟨links, h⟩ := (Phrase.parentheses h).loosen level.rank_le
  exact ⟨links, depth + 1, h, hheight⟩

/-- Every operator links what is in parentheses. -/
theorem link {ls rs : List Token} {l r : Expr} (op : ChainOp) (hleft : DerivesCounted ls l)
    (hright : DerivesCounted rs r) :
    DerivesCounted
      (ReactiveForm.inParentheses ls ++ .symbol op.symbol :: ReactiveForm.inParentheses rs)
      (op.join l r) := by
  obtain ⟨next, hnext⟩ := op.exists_tighter_level
  obtain ⟨links, depth, hleft, hl⟩ := hleft.inParentheses op.level
  obtain ⟨links', depth', hright, hr⟩ := hright.inParentheses next
  refine ofPhrase (.link op rfl hnext hleft hright) ?_
  rw [height_join]
  omega

/-- The arguments of a call can each be put in parentheses. -/
theorem exists_arguments {arguments : List Argument}
    (h : ∀ a ∈ arguments, DerivesCounted a.tree.parenthesized a.tree) :
    ∃ arguments' : List Argument,
      (∀ a ∈ arguments', Phrase .conditional 0 a.depth a.tokens a.tree ∧
        a.tree.height ≤ a.depth + 1) ∧
      arguments'.map (·.tokens) = Expr.allParenthesized (arguments.map (·.tree)) ∧
      arguments'.map (·.tree) = arguments.map (·.tree) := by
  induction arguments with
  | nil => exact ⟨[], by simp, rfl, rfl⟩
  | cons a arguments ih =>
    obtain ⟨ha, harguments⟩ := List.forall_mem_cons.1 h
    obtain ⟨depth, ha⟩ := ha
    obtain ⟨arguments', hphrases, htokens, htrees⟩ := ih harguments
    refine ⟨⟨depth, a.tree.parenthesized, a.tree⟩ :: arguments',
      List.forall_mem_cons.2 ⟨ha, hphrases⟩, ?_, ?_⟩
    · rw [List.map_cons, List.map_cons, Expr.allParenthesized, htokens]
    · rw [List.map_cons, List.map_cons, htrees]

/-- A leaf is a level by itself. -/
theorem leaf (h : Phrase .operand 0 0 ts e) (hheight : e.height = 1) : DerivesCounted ts e :=
  ofPhrase h (Nat.le_of_eq hheight)

end DerivesCounted

/-- **Whatever is derived at all is derived with all its parts in parentheses**, and then each of
its levels is counted. -/
theorem Derives.counted {ts : List Token} {e : Expr} (h : Derives ts e) :
    DerivesCounted e.parenthesized e := by
  obtain ⟨depth, h⟩ := h
  generalize Level.conditional = level, 0 = links at h
  induction h with
  | tighter _ _ ih => exact ih
  | choice _ _ _ ihcondition ihyes ihno =>
    obtain ⟨_, _, hcondition, hc⟩ := ihcondition.inParentheses .disjunction
    obtain ⟨_, _, hyes, hy⟩ := ihyes.inParentheses .conditional
    obtain ⟨_, _, hno, hn⟩ := ihno.inParentheses .conditional
    refine .ofPhrase (.choice hcondition (hyes.links_eq_zero rfl ▸ hyes)
      (hno.links_eq_zero rfl ▸ hno)) ?_
    rw [Expr.height]
    omega
  | link op _ _ _ _ ihleft ihright =>
    cases op <;> exact .link _ ihleft ihright
  | unary op _ ih =>
    obtain ⟨_, _, h, hheight⟩ := ih.inParentheses .prefixed
    refine .ofPhrase (.unary op h) ?_
    rw [Expr.height]
    omega
  | member property _ ih =>
    obtain ⟨_, _, h, hheight⟩ := ih.inParentheses .members
    refine .ofPhrase (.member property h) ?_
    rw [Expr.height]
    omega
  | number x => exact .leaf (.number x) (by rw [Expr.height])
  | text s => exact .leaf (.text s) (by rw [Expr.height])
  | keyword h =>
    cases h with
    | true => exact .leaf (.keyword .true) (by rw [Expr.height])
    | false => exact .leaf (.keyword .false) (by rw [Expr.height])
    | null => exact .leaf (.keyword .null) (by rw [Expr.height])
    | undefined => exact .leaf (.keyword .null) (by rw [Expr.height])
    | nan => exact .leaf (.number .nan) (by rw [Expr.height])
    | infinity => exact .leaf (.number (.infinite false)) (by rw [Expr.height])
  | name hkeyword hmath => exact .leaf (.name hkeyword hmath) (by rw [Expr.height])
  | constant _ => exact .leaf (.number _) (by rw [Expr.height])
  | call f arguments _ ih =>
    obtain ⟨arguments', hphrases, htokens, htrees⟩ := DerivesCounted.exists_arguments ih
    rw [Expr.parenthesized, ← htokens, ← htrees]
    refine .ofPhrase (.call f arguments' fun a ha ↦ (hphrases a ha).1) ?_
    have hheight : Expr.maxHeight (arguments'.map (·.tree)) ≤
        (arguments'.map (·.depth)).foldr max 0 + 1 :=
      maxHeight_le fun a ha ↦ Nat.le_trans (hphrases a ha).2 (Nat.succ_le_succ (depth_le_foldr ha))
    rw [Expr.height]
    omega
  | parentheses _ ih => exact ih

end ReactiveForm
