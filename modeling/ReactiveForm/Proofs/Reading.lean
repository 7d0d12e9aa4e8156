import ReactiveForm.Proofs.Parsing

/-!
# The reader accepts exactly the grammar

What some tokens derive is read.  The proof is one lemma for each rule of the grammar, all about one
notion: tokens are *read as* a tree on a level (`ReadAs`) if a run on that level, given these tokens
and others behind them, comes to reading on what is behind them.

## Why reading on

It would be simpler to say that a run on the tokens of a phrase gives the tree of the phrase, but
that is not true of chains.  `a - b` is a phrase, and the run that has read `a - b` of `a - b - c`
does not stop there; it has the tree of `a - b` in hand and reads on.  So `readFrom` is what a run
of a level begins with, `goOn` is what it does once there is a tree, and a phrase takes it from the
one to the other.  A rule that adds a link adds one round of `goOn`, and where the tokens behind
bind too loosely to be taken, `goOn` stops and the tree is the answer (`goOn_eq_ok`).

What can stand behind a phrase is told by how tightly a token binds (`Token.grip`): behind a phrase
of a level no token may bind tighter than the operators of that level, which go on with its chain.

## Why exactly

The runs are followed exactly, the limit of nesting included (`ComesTo`), so that this half says
more than the grammar does: tokens with a tree are read exactly if its nesting is within the limit
(`Phrase.comesTo_exprOfTokens`).  With the other half, that whatever is read is derived, this gives
the main result, `exprOfTokens_decides`.
-/

set_option autoImplicit false
namespace ReactiveForm

/-! ## How tightly tokens bind

The numbers are one more than the ranks of the levels, so that an operator binds tighter than every
level above its own and no tighter than its own allows. -/

/-- How tightly a token binds to the phrase before it: with zero not at all. -/
def Token.grip : Token → Nat
  | .symbol .question => 1
  | .symbol .or => 2
  | .symbol .and => 3
  | .symbol .equal | .symbol .notEqual => 4
  | .symbol .less | .symbol .atMost | .symbol .greater | .symbol .atLeast => 5
  | .symbol .plus | .symbol .minus => 6
  | .symbol .times | .symbol .divide | .symbol .remainder => 7
  | .symbol .dot | .symbol .opening => 9
  | _ => 0

/-- An operator of a chain binds tighter than its level by one. -/
theorem ChainOp.grip_symbol (op : ChainOp) : (Token.symbol op.symbol).grip = op.level.rank + 1 := by
  rcases op with op | op <;> cases op <;> rfl

/-- Whether the first of some tokens, if there is one, binds at most that tightly to a phrase that
they come behind. -/
def Loose (grip : Nat) (ts : List Placed) : Prop := ∀ t ∈ ts.head?, t.token.grip ≤ grip

/-- The tightest that a token behind a phrase may bind to it.  Behind a conditional nothing may:
its last part would take it. -/
def Level.slack : Level → Nat
  | .conditional => 0
  | level => level.rank + 1

section Completeness

variable {finish n links depth : Nat} {level next : Level} {ts rest : List Placed} {e : Expr}
  {used : List Token}

theorem Loose.mono {grip grip' : Nat} (h : Loose grip ts) (hle : grip ≤ grip') : Loose grip' ts :=
  fun t ht ↦ Nat.le_trans (h t ht) hle

theorem Loose.head {t : Token} {position grip : Nat} (h : Loose grip (⟨t, position⟩ :: ts)) :
    t.grip ≤ grip :=
  h _ rfl

theorem Loose.cons {t : Token} {position grip : Nat} (h : t.grip ≤ grip) :
    Loose grip (⟨t, position⟩ :: ts) := by
  intro t' ht
  obtain rfl := Option.some.inj ht
  exact h

theorem Level.slack_of_hasLinks (h : level.hasLinks = true) : level.slack = level.rank + 1 := by
  cases level <;> first | rfl | cases h

/-- What may stand behind a phrase may stand behind the same phrase one level further in. -/
theorem Level.slack_le_rank (h : level.tighter? = some next) : level.slack ≤ next.rank := by
  rw [rank_of_tighter? h]
  cases level <;> simp [slack]

theorem Level.rank_le_slack (level : Level) : level.rank ≤ level.slack := by
  cases level <;> decide

/-! ### The steps of the reader

The functions of the reader, seen as one function of the level. -/

/-- What is done with what could be the condition of a conditional. -/
def afterCondition (finish n : Nat) (condition : Expr) : List Placed → Parsed
  | ⟨.symbol .question, _⟩ :: rest =>
    if n < maxNesting then do
      let (yes, rest) ← conditional finish (n + 1) rest
      let rest ← expectSymbol finish .colon "`:` in conditional expression" rest
      let (no, rest) ← conditional finish (n + 1) rest
      .ok (.conditional condition yes no, rest)
    else .error (.tooDeep (nextPosition finish rest))
  | rest => .ok (condition, rest)

/-- What is done behind the parenthesis that opens the arguments of a function. -/
def readCall (finish n : Nat) (f : MathFunction) (position : Nat) (ts : List Placed) : Parsed :=
  if n < maxNesting then
    match ts with
    | ⟨.symbol .closing, _⟩ :: rest => .ok (.call f [], rest)
    | inside => do
      let (es, rest) ←
        argumentsWith finish (fun ts ↦ conditional finish (n + 1) ts) (inside.length + 1) inside
      .ok (.call f es, rest)
  else .error (.tooDeep position)

/-- **How a phrase of a level is read.** -/
def readFrom (finish : Nat) : Level → Nat → List Placed → Parsed
  | .conditional, n, ts => conditional finish n ts
  | .members, n, ts => do
    let (object, rest) ← operand finish n ts
    membersAfter finish n object rest
  | .operand, n, ts => operand finish n ts
  | level, n, ts => chain finish level.chains n ts

/-- **How a phrase of a level is read on**, given what has been read of it. -/
def goOn (finish : Nat) : Level → Nat → Expr → List Placed → Parsed
  | .conditional, n, e, ts => afterCondition finish n e ts
  | .members, n, e, ts => membersAfter finish n e ts
  | level, n, e, ts =>
    match level.chains with
    | [] => .ok (e, ts)
    | c :: levels => chainAfter finish c levels n e ts

theorem readFrom_of_isChain (h : level.IsChain) :
    readFrom finish level n ts = chain finish level.chains n ts := by
  cases level <;> first | rfl | exact absurd h (by decide)

theorem goOn_of_chains {c : ChainLevel} {levels : List ChainLevel}
    (h : level.chains = c :: levels) :
    goOn finish level n e ts = chainAfter finish c levels n e ts := by
  cases level <;> first | cases h; rfl | cases h

/-- What binds too loosely to a phrase is left behind it. -/
theorem goOn_eq_ok (h : Loose level.rank rest) : goOn finish level n e rest = .ok (e, rest) := by
  cases hchains : level.chains with
  | cons c levels =>
    rw [goOn_of_chains hchains]
    match rest, h with
    | [], _ => rw [chainAfter]
    | t :: tail, h =>
      obtain ⟨_, _, _, _, hops⟩ := Level.chains_eq_cons hchains
      have hnone : c.op? t.token = none := by
        refine Option.eq_none_iff_forall_ne_some.2 fun op hop ↦ ?_
        obtain ⟨rfl, ht⟩ := (hops _ _).1 hop
        have hgrip : t.token.grip ≤ op.level.rank := h t rfl
        rw [ht, op.grip_symbol] at hgrip
        exact absurd hgrip (Nat.not_succ_le_self _)
      rw [chainAfter_of_none hnone]
  | nil =>
    cases level with
    | conditional =>
      rw [goOn]
      unfold afterCondition
      split
      · exact absurd h.head (by decide)
      · rfl
    | members =>
      rw [goOn]
      unfold membersAfter
      split
      · exact absurd h.head (by decide)
      · exact absurd h.head (by decide)
      · rfl
    | prefixed => rfl
    | operand => rfl
    | _ => cases hchains

/-- A phrase is read as one of the next tighter level, and then read on. -/
theorem readFrom_tighter (hnext : level.tighter? = some next)
    (hstart : next = .members → ∃ t tail, ts = t :: tail ∧ prefixOp? t.token = none) :
    readFrom finish level n ts =
      readFrom finish next n ts >>= fun read ↦ goOn finish level n read.1 read.2 := by
  cases hchains : level.chains with
  | cons c levels =>
    obtain ⟨next', hnext', hchain, rfl, -⟩ := Level.chains_eq_cons hchains
    obtain rfl := Option.some.inj (hnext.symm.trans hnext')
    rw [readFrom_of_isChain hchain, readFrom_of_isChain, hchains, chain]
    · simp only [goOn_of_chains hchains]
    · cases level <;> first | decide | cases hchains
  | nil =>
    cases level with
    | conditional =>
      obtain rfl := Option.some.inj hnext
      exact conditional.eq_1 finish n ts
    | prefixed =>
      obtain rfl := Option.some.inj hnext
      obtain ⟨t, tail, rfl, ht⟩ := hstart rfl
      rw [readFrom_of_isChain (by decide), hchains, chain, prefixed_of_none ht]
      exact (bind_pure _).symm
    | members =>
      obtain rfl := Option.some.inj hnext
      rfl
    | operand => cases hnext
    | _ => cases hchains

theorem expectSymbol_symbol {s : Symbol} {expected : String} {position : Nat} :
    expectSymbol finish s expected (⟨.symbol s, position⟩ :: ts) = .ok ts := by
  rw [expectSymbol, if_pos rfl]

/-- A keyword is read as its literal. -/
theorem operand_keyword {s : String} {l : Literal} {position : Nat} (h : Keyword s l) :
    operand finish n (⟨.name s, position⟩ :: ts) = .ok (.literal l, ts) :=
  operand_of_namedLiteral (namedLiteral?_eq_some_iff.2 h)

/-- A name that means nothing else is read as a name. -/
theorem operand_name {s : String} {position : Nat} (hkeyword : ∀ l, ¬Keyword s l)
    (hmath : s ≠ "Math") :
    operand finish n (⟨.name s, position⟩ :: ts) = .ok (.name s, ts) := by
  have hnone : namedLiteral? s = none := Option.eq_none_iff_forall_ne_some.2 fun l hl ↦
    hkeyword l (namedLiteral?_eq_some_iff.1 hl)
  exact operand_of_ne_math hnone hmath

section MathMember

variable {s : String} {position position₁ position₂ : Nat}

/-- A constant of the built-in name space is read as its number. -/
theorem operand_constant {x : Binary64} (h : Constant s x) :
    operand finish n (⟨.name "Math", position⟩ :: ⟨.symbol .dot, position₁⟩ ::
      ⟨.name s, position₂⟩ :: ts) = .ok (.literal (.number x), ts) := by
  rw [operand, show namedLiteral? "Math" = none from rfl]
  dsimp only
  rw [if_pos (show "Math" = mathName from rfl), expectSymbol_symbol]
  dsimp only [Bind.bind, Except.bind, expectName]
  rw [mathConstant?_eq_some_iff.2 h]

/-- After the name of a function come its arguments, or nothing in parentheses. -/
theorem operand_function (f : MathFunction) {position₃ : Nat} :
    operand finish n (⟨.name "Math", position⟩ :: ⟨.symbol .dot, position₁⟩ ::
      ⟨.name f.name, position₂⟩ :: ⟨.symbol .opening, position₃⟩ :: ts) =
      readCall finish n f position ts := by
  have hconstant : mathConstant? f.name = none := by cases f <;> rfl
  rw [operand, show namedLiteral? "Math" = none from rfl]
  dsimp only
  rw [if_pos (show "Math" = mathName from rfl), expectSymbol_symbol]
  dsimp only [Bind.bind, Except.bind, expectName]
  rw [hconstant, MathFunction.ofName?_eq_some_iff.2 rfl]
  dsimp only
  rw [expectSymbol_symbol]
  rfl

/-- A call whose first argument can be read has what its arguments come to. -/
theorem comesTo_call (f : MathFunction) {position₃ : Nat} {es : List Expr} {within : Prop}
    (hts : ∀ t ∈ ts.head?, t.token ≠ .symbol .closing)
    (h : n < maxNesting → ComesTo within
      (argumentsWith finish (fun ts ↦ conditional finish (n + 1) ts) (ts.length + 1) ts)
      (.ok (es, rest))) :
    ComesTo (n < maxNesting ∧ within)
      (operand finish n (⟨.name "Math", position⟩ :: ⟨.symbol .dot, position₁⟩ ::
        ⟨.name f.name, position₂⟩ :: ⟨.symbol .opening, position₃⟩ :: ts))
      (.ok (.call f es, rest)) := by
  rw [operand_function, readCall]
  · exact .guard fun hn ↦ ((h hn).bind (.of_eq rfl)).congr (iff_of_eq (and_true _))
  · rintro position tail rfl
    exact hts _ rfl rfl

end MathMember

/-! ### The runs of the reader

Each rule of the grammar, for runs.  The tokens of a phrase come with positions, so a proof first
takes the list apart at the tokens that the rule has between its parts, and then puts the runs on
the parts together.  The bounds on nesting add up as the depths in the grammar do. -/

/-- What an operand can start with is no prefix. -/
theorem prefixOp?_eq_none {t : Token} (h : t.startsOperand = true) : prefixOp? t = none := by
  refine Option.eq_none_iff_forall_ne_some.2 fun op hop ↦ ?_
  rw [prefixOp?_eq_some_iff] at hop
  subst hop
  cases op <;> cases h

/-- No argument of a call starts with the parenthesis that closes the call. -/
theorem Phrase.starts_ne_closing (h : Phrase level links depth used e) :
    ∃ t tail, used = t :: tail ∧ t ≠ .symbol .closing := by
  obtain ⟨t, tail, hused, ht⟩ := h.starts
  refine ⟨t, tail, hused, ?_⟩
  rintro rfl
  rcases ht with ht | ⟨-, op, ht⟩
  · cases ht
  · cases op <;> cases ht

/-- The arguments of a call are read if each of them is. -/
theorem comesTo_argumentsWith {item : List Placed → Parsed} {m : Nat}
    {arguments : List Argument}
    (hitem : ∀ a ∈ arguments, ∀ ts rest, ts.map (·.token) = a.tokens → Loose 0 rest →
      ComesTo (m + a.depth ≤ maxNesting) (item (ts ++ rest)) (.ok (a.tree, rest)))
    (hne : arguments ≠ []) {bound : Nat} (hbound : arguments.length ≤ bound)
    (hts : ts.map (·.token) = separated (arguments.map (·.tokens)) ++ [.symbol .closing]) :
    ComesTo (m + (arguments.map (·.depth)).foldr max 0 ≤ maxNesting)
      (argumentsWith finish item bound (ts ++ rest)) (.ok (arguments.map (·.tree), rest)) := by
  induction arguments generalizing bound ts with
  | nil => exact absurd rfl hne
  | cons a arguments ih =>
    obtain ⟨bound, rfl⟩ := Nat.exists_eq_add_one_of_ne_zero
      (Nat.ne_of_gt (Nat.lt_of_lt_of_le arguments.length.succ_pos hbound))
    obtain ⟨hfirst, hothers⟩ := List.forall_mem_cons.1 hitem
    rw [argumentsWith]
    by_cases harguments : arguments = []
    · subst harguments
      rw [List.map_singleton, separated_singleton] at hts
      obtain ⟨as, cs, rfl, has, hcs⟩ := List.map_eq_append_iff.1 hts
      obtain ⟨⟨_, position⟩, rfl, rfl⟩ := List.map_eq_singleton_iff.1 hcs
      have hread := hfirst as (⟨.symbol .closing, position⟩ :: rest) has (.cons (Nat.le_refl 0))
      rw [List.append_assoc]
      exact (hread.bind (.of_eq rfl)).congr (by simp)
    · rw [List.map_cons, separated_cons (by simpa using harguments), List.append_assoc,
        List.cons_append] at hts
      obtain ⟨as, cs, rfl, has, hcs⟩ := List.map_eq_append_iff.1 hts
      obtain ⟨⟨_, position⟩, tail, rfl, rfl, htail⟩ := List.map_eq_cons_iff.1 hcs
      have hread := hfirst as (⟨.symbol .comma, position⟩ :: (tail ++ rest)) has
        (.cons (Nat.le_refl 0))
      have hmore := ih hothers harguments (Nat.le_of_succ_le_succ hbound) htail
      rw [List.append_assoc, List.cons_append]
      refine (hread.bind (hmore.bind (.of_eq rfl))).congr ?_
      rw [List.map_cons, List.foldr_cons, and_true]
      omega

/-- **Some tokens are read as a tree** on a level: the run comes to reading on what is behind them,
with the tree in hand and the links of its chain counted. -/
def ReadAs (finish : Nat) (level : Level) (links depth : Nat) (used : List Token)
    (e : Expr) : Prop :=
  ∀ n ts rest, n ≤ maxNesting → ts.map (·.token) = used → Loose level.slack rest →
    ComesTo (n + depth ≤ maxNesting) (readFrom finish level n (ts ++ rest))
      (goOn finish level (n + links) e rest)

namespace ReadAs

/-- Before what binds too loosely, reading stops. -/
theorem stop (h : ReadAs finish level links depth used e) (hn : n ≤ maxNesting)
    (hts : ts.map (·.token) = used) (hrest : Loose level.rank rest) :
    ComesTo (n + depth ≤ maxNesting) (readFrom finish level n (ts ++ rest)) (.ok (e, rest)) := by
  rw [← goOn_eq_ok hrest]
  exact h n ts rest hn hts (hrest.mono level.rank_le_slack)

/-- An operand of some tokens, with nothing to read inside it. -/
theorem operand (h : ∀ {n ts rest}, ts.map (·.token) = used →
    ReactiveForm.operand finish n (ts ++ rest) = .ok (e, rest)) :
    ReadAs finish .operand 0 0 used e := fun _ _ _ hn hts _ ↦
  (ComesTo.of_eq (h hts)).congr (iff_of_true trivial hn)

/-- An operand of one token. -/
theorem token {t : Token} (h : ∀ {n ts position},
    ReactiveForm.operand finish n (⟨t, position⟩ :: ts) = .ok (e, ts)) :
    ReadAs finish .operand 0 0 [t] e := by
  refine .operand fun hts ↦ ?_
  obtain ⟨⟨_, position⟩, rfl, rfl⟩ := List.map_eq_singleton_iff.1 hts
  exact h

/-- A phrase of the next tighter level is read as one of the level, without links yet. -/
theorem tighter (hnext : level.tighter? = some next)
    (hstart : next = .members → ∃ t tail, used = t :: tail ∧ prefixOp? t = none)
    (h : ReadAs finish next links depth used e) : ReadAs finish level 0 depth used e := by
  intro n ts rest hn hts hrest
  have hread := h.stop hn hts (hrest.mono (Level.slack_le_rank hnext))
  rw [readFrom_tighter hnext]
  · exact (hread.bind (.of_eq rfl)).congr (iff_of_eq (and_true _))
  · intro hmembers
    obtain ⟨t, tail, rfl, ht⟩ := hstart hmembers
    obtain ⟨t, tail, rfl, rfl, -⟩ := List.map_eq_cons_iff.1 hts
    exact ⟨t, tail ++ rest, rfl, ht⟩

/-- A conditional is read as its condition, and then as its two branches on the next level. -/
theorem choice {depth₁ depth₂ : Nat} {cs ys ns : List Token} {c y no : Expr}
    (hcondition : ReadAs finish .disjunction links depth cs c)
    (hyes : ReadAs finish .conditional 0 depth₁ ys y)
    (hno : ReadAs finish .conditional 0 depth₂ ns no) :
    ReadAs finish .conditional 0 (max depth (max depth₁ depth₂ + 1))
      (cs ++ .symbol .question :: (ys ++ .symbol .colon :: ns)) (.conditional c y no) := by
  intro n ts rest hn hts hrest
  obtain ⟨cs, behind, rfl, hcs, hbehind⟩ := List.map_eq_append_iff.1 hts
  obtain ⟨⟨_, position⟩, behind, rfl, rfl, hparts⟩ := List.map_eq_cons_iff.1 hbehind
  obtain ⟨ys, behind, rfl, hys, hothers⟩ := List.map_eq_append_iff.1 hparts
  obtain ⟨⟨_, position'⟩, ns, rfl, rfl, hns⟩ := List.map_eq_cons_iff.1 hothers
  simp only [List.append_assoc, List.cons_append]
  have hthen : ComesTo (n < maxNesting ∧ n + 1 + depth₁ ≤ maxNesting ∧ n + 1 + depth₂ ≤ maxNesting)
      (afterCondition finish n c
        (⟨.symbol .question, position⟩ :: (ys ++ ⟨.symbol .colon, position'⟩ :: (ns ++ rest))))
      (.ok (.conditional c y no, rest)) := by
    rw [afterCondition]
    refine .guard fun hn' ↦ (hyes.stop hn' hys (.cons (by decide))).bind ?_
    dsimp only
    rw [expectSymbol_symbol]
    exact ((hno.stop hn' hns hrest).bind (.of_eq rfl)).congr (iff_of_eq (and_true _))
  -- a conditional is not read on: its last part takes all that it can
  have hlast : Loose Level.conditional.rank rest := hrest
  rw [goOn_eq_ok hlast, readFrom_tighter rfl (by rintro ⟨⟩)]
  exact ((hcondition.stop hn hcs (.cons (by decide))).bind hthen).congr (by omega)

/-- **A link more**: an operator binds just tightly enough to be taken by the chain on its left. -/
theorem link {links' depth' : Nat} {ls rs : List Token} {l r : Expr} (op : ChainOp)
    (hlevel : op.level = level) (hnext : level.tighter? = some next)
    (hleft : ReadAs finish level links depth ls l)
    (hright : ReadAs finish next links' depth' rs r) :
    ReadAs finish level (links + 1) (max depth (links + 1 + depth'))
      (ls ++ .symbol op.symbol :: rs) (op.join l r) := by
  intro n ts rest hn hts hrest
  obtain ⟨ls, behind, rfl, hls, hbehind⟩ := List.map_eq_append_iff.1 hts
  obtain ⟨⟨_, position⟩, rs, rfl, rfl, hrs⟩ := List.map_eq_cons_iff.1 hbehind
  have hloose : Loose level.slack (⟨.symbol op.symbol, position⟩ :: (rs ++ rest)) := by
    refine .cons (Nat.le_of_eq ?_)
    rw [op.grip_symbol, hlevel, Level.slack_of_hasLinks (hlevel ▸ op.hasLinks_level)]
  -- the left operand has been read with `links` rounds, and this is the next one
  have hthen : ComesTo (n + links < maxNesting ∧ n + links + 1 + depth' ≤ maxNesting)
      (goOn finish level (n + links) l (⟨.symbol op.symbol, position⟩ :: (rs ++ rest)))
      (goOn finish level (n + links + 1) (op.join l r) rest) := by
    obtain ⟨c, levels, hchains⟩ : ∃ c levels, level.chains = c :: levels := by
      subst hlevel
      rcases op with op | op <;> cases op <;> exact ⟨_, _, rfl⟩
    obtain ⟨next', hnext', hchain, rfl, hops⟩ := Level.chains_eq_cons hchains
    obtain rfl := Option.some.inj (hnext.symm.trans hnext')
    rw [goOn_of_chains hchains, goOn_of_chains hchains,
      chainAfter_of_some ((hops _ _).2 ⟨hlevel, rfl⟩)]
    refine .guard fun hn' ↦ ?_
    have hread := hright.stop hn' hrs (hrest.mono (Level.slack_le_rank hnext))
    rw [readFrom_of_isChain hchain] at hread
    exact (hread.bind (.of_eq rfl)).congr (iff_of_eq (and_true _))
  rw [List.append_assoc, List.cons_append]
  exact ((hleft _ _ _ hn hls hloose).trans hthen).congr (by omega)

/-- Behind a prefix the rest is read on the next level. -/
theorem unary (op : UnaryOp) (h : ReadAs finish .prefixed links depth used e) :
    ReadAs finish .prefixed 0 (depth + 1) (.symbol op.symbol :: used) (.unary op e) := by
  intro n ts rest hn hts hrest
  obtain ⟨⟨_, position⟩, ts, rfl, rfl, hused⟩ := List.map_eq_cons_iff.1 hts
  rw [List.cons_append, readFrom_of_isChain (by decide)]
  change ComesTo _ (chain finish [] n _) _
  rw [chain, prefixed_of_some (prefixOp?_eq_some_iff.2 rfl)]
  have hinner (hn' : n < maxNesting) : ComesTo (n + 1 + depth ≤ maxNesting)
      (prefixed finish (n + 1) (ts ++ rest)) (.ok (e, rest)) := by
    have hread := h _ _ _ hn' hused hrest
    rw [readFrom_of_isChain (by decide)] at hread
    change ComesTo _ (chain finish [] _ _) (.ok (e, rest)) at hread
    rwa [chain] at hread
  exact (ComesTo.guard fun hn' ↦ (hinner hn').bind (.of_eq rfl)).congr (by rw [and_true]; omega)

/-- A member is a link as well. -/
theorem member (property : String) (h : ReadAs finish .members links depth used e) :
    ReadAs finish .members (links + 1) (max depth (links + 1))
      (used ++ [.symbol .dot, .name property]) (.member e property) := by
  intro n ts rest hn hts hrest
  obtain ⟨ts, behind, rfl, hused, hbehind⟩ := List.map_eq_append_iff.1 hts
  obtain ⟨⟨_, position⟩, behind, rfl, rfl, hname⟩ := List.map_eq_cons_iff.1 hbehind
  obtain ⟨⟨_, position'⟩, rfl, rfl⟩ := List.map_eq_singleton_iff.1 hname
  rw [List.append_assoc]
  have hthen : ComesTo (n + links < maxNesting)
      (goOn finish .members (n + links) e
        (⟨.symbol .dot, position⟩ :: ⟨.name property, position'⟩ :: rest))
      (goOn finish .members (n + links + 1) (.member e property) rest) := by
    rw [goOn, membersAfter]
    exact (ComesTo.guard fun _ ↦ .of_eq rfl).congr (iff_of_eq (and_true _))
  exact ((h _ _ _ hn hused (.cons (by decide))).trans hthen).congr (by omega)

/-- Inside of parentheses reading begins anew on the next level, and ends before they close. -/
theorem parentheses (h : ReadAs finish .conditional 0 depth used e) :
    ReadAs finish .operand 0 (depth + 1) (.symbol .opening :: (used ++ [.symbol .closing])) e := by
  intro n ts rest hn hts hrest
  obtain ⟨⟨_, position⟩, behind, rfl, rfl, hbehind⟩ := List.map_eq_cons_iff.1 hts
  obtain ⟨ts, closing, rfl, hused, hclosing⟩ := List.map_eq_append_iff.1 hbehind
  obtain ⟨⟨_, position'⟩, rfl, rfl⟩ := List.map_eq_singleton_iff.1 hclosing
  rw [List.cons_append, List.append_assoc, readFrom, operand_opening]
  have hclosed : (expectSymbol finish .closing "`)`" (⟨.symbol .closing, position'⟩ :: rest) >>=
      fun after ↦ .ok (e, after)) = .ok (e, rest) := by
    rw [expectSymbol_symbol]
    rfl
  have hloose : Loose Level.conditional.rank (⟨.symbol .closing, position'⟩ :: rest) :=
    .cons (by decide)
  exact (ComesTo.guard fun hn' ↦ (h.stop hn' hused hloose).bind (.of_eq hclosed)).congr
    (by rw [and_true]; omega)

/-- A call is read as its arguments are. -/
theorem call (f : MathFunction) {arguments : List Argument}
    (hphrase : ∀ a ∈ arguments, Phrase .conditional 0 a.depth a.tokens a.tree)
    (h : ∀ a ∈ arguments, ReadAs finish .conditional 0 a.depth a.tokens a.tree) :
    ReadAs finish .operand 0 ((arguments.map (·.depth)).foldr max 0 + 1)
      (mathMember f.name ++
        .symbol .opening :: (separated (arguments.map (·.tokens)) ++ [.symbol .closing]))
      (.call f (arguments.map (·.tree))) := by
  intro n ts rest hn hts hrest
  obtain ⟨⟨_, position⟩, behind, rfl, rfl, hbehind⟩ := List.map_eq_cons_iff.1 hts
  obtain ⟨⟨_, position₁⟩, behind, rfl, rfl, hbehind₁⟩ := List.map_eq_cons_iff.1 hbehind
  obtain ⟨⟨_, position₂⟩, behind, rfl, rfl, hbehind₂⟩ := List.map_eq_cons_iff.1 hbehind₁
  obtain ⟨⟨_, position₃⟩, inside, rfl, rfl, hinside⟩ := List.map_eq_cons_iff.1 hbehind₂
  cases arguments with
  | nil =>
    obtain ⟨⟨_, position₄⟩, rfl, rfl⟩ := List.map_eq_singleton_iff.1 hinside
    simp only [List.cons_append]
    rw [readFrom, operand_function, readCall]
    exact (ComesTo.guard fun _ ↦ .of_eq rfl).congr (iff_of_eq (and_true _))
  | cons a arguments =>
    -- the reader bounds the arguments by the tokens that are left, and each takes one at least
    have hlength : (a :: arguments).length ≤ (inside ++ rest).length + 1 := by
      have htokens := congrArg List.length hinside
      have hle := length_le_length_separated ((a :: arguments).map (·.tokens))
      rw [List.length_append, List.length_map] at htokens
      rw [List.length_map] at hle
      rw [List.length_append]
      omega
    have hhead : ∀ t ∈ (inside ++ rest).head?, t.token ≠ .symbol .closing := by
      obtain ⟨t, tail, hfirst, ht⟩ := (hphrase a List.mem_cons_self).starts_ne_closing
      obtain ⟨others, hothers⟩ := exists_separated_eq_append a.tokens (arguments.map (·.tokens))
      rw [List.map_cons, hothers, hfirst] at hinside
      obtain ⟨t', inside, rfl, rfl, -⟩ := List.map_eq_cons_iff.1 hinside
      intro t ht'
      obtain rfl := Option.some.inj ht'
      exact ht
    have hitem (hn' : n + 1 ≤ maxNesting) : ∀ b ∈ a :: arguments, ∀ ts rest,
        ts.map (·.token) = b.tokens → Loose 0 rest →
        ComesTo (n + 1 + b.depth ≤ maxNesting) (conditional finish (n + 1) (ts ++ rest))
          (.ok (b.tree, rest)) :=
      fun b hb _ _ hts hrest ↦ (h b hb).stop hn' hts hrest
    refine (comesTo_call f hhead fun hn' ↦ comesTo_argumentsWith (hitem hn')
      (List.cons_ne_nil a arguments) hlength hinside).congr (by omega)

end ReadAs

/-- **What a phrase comes to**: what is behind it is read on, with its tree in hand. -/
theorem Phrase.readAs (h : Phrase level links depth used e) :
    ReadAs finish level links depth used e := by
  induction h with
  | tighter hnext h ih =>
    refine ReadAs.tighter hnext (fun hmembers ↦ ?_) ih
    subst hmembers
    -- an operand with members begins with no prefix, which `prefixed` would take
    obtain ⟨t, tail, rfl, ht⟩ := h.starts
    exact ⟨t, tail, rfl, prefixOp?_eq_none (ht.resolve_right fun h ↦ absurd h.1 (by decide))⟩
  | choice _ _ _ ihcondition ihyes ihno => exact ReadAs.choice ihcondition ihyes ihno
  | link op hlevel hnext _ _ ihleft ihright => exact ReadAs.link op hlevel hnext ihleft ihright
  | unary op _ ih => exact ReadAs.unary op ih
  | member property _ ih => exact ReadAs.member property ih
  | number x => exact ReadAs.token (operand_number x)
  | text s => exact ReadAs.token (operand_text s)
  | keyword h => exact ReadAs.token (operand_keyword h)
  | name hkeyword hmath => exact ReadAs.token (operand_name hkeyword hmath)
  | constant h =>
    refine ReadAs.operand fun hts ↦ ?_
    obtain ⟨⟨_, position⟩, _, rfl, rfl, hdot⟩ := List.map_eq_cons_iff.1 hts
    obtain ⟨⟨_, position₁⟩, _, rfl, rfl, hname⟩ := List.map_eq_cons_iff.1 hdot
    obtain ⟨⟨_, position₂⟩, rfl, rfl⟩ := List.map_eq_singleton_iff.1 hname
    exact operand_constant h
  | call f arguments h ih => exact ReadAs.call f h ih
  | parentheses _ ih => exact ReadAs.parentheses ih

/-- **Reading is exact**: tokens that derive a tree are read as it exactly if it nests within the
limit. -/
theorem Phrase.comesTo_exprOfTokens (h : Phrase .conditional 0 depth used e)
    (hts : ts.map (·.token) = used) :
    ComesTo (depth ≤ maxNesting) (exprOfTokens finish ts) (.ok e) := by
  have hread : ComesTo (0 + depth ≤ maxNesting) (conditional finish 0 (ts ++ [])) (.ok (e, [])) :=
    h.readAs.stop (Nat.zero_le _) hts (by rintro _ ⟨⟩)
  rw [List.append_nil, Nat.zero_add] at hread
  exact (hread.bind (.of_eq rfl)).congr (iff_of_eq (and_true _))

/-- Whatever is read takes all the tokens, derives from them and nests within the limit. -/
theorem exists_phrase_of_exprOfTokens (h : exprOfTokens finish ts = .ok e) :
    ∃ depth ≤ maxNesting, Phrase .conditional 0 depth (ts.map (·.token)) e := by
  obtain ⟨⟨e', rest⟩, hread, hlast⟩ := exists_of_bind_eq_ok h
  obtain ⟨used, links, depth, rfl, hphrase⟩ := completes_conditional hread
  cases rest with
  | cons => cases hlast
  | nil =>
    obtain rfl := Except.ok.inj hlast
    rw [List.nil_append, hphrase.links_eq_zero rfl] at hphrase
    rw [List.append_nil] at h ⊢
    exact ⟨depth, (hphrase.comesTo_exprOfTokens rfl).of_ok h, hphrase⟩

/-- **The reader of expressions accepts exactly its grammar.**  What it reads is derived; what is
derived is read, or nests too deep; and so is what is derived when it is written with all its parts
in parentheses. -/
theorem exprOfTokens_decides (finish : Nat) (ts : List Placed) (e : Expr) :
    (exprOfTokens finish ts = .ok e → Derives (ts.map (·.token)) e) ∧
    (Derives (ts.map (·.token)) e → exprOfTokens finish ts = .ok e ∨
      ∃ position, exprOfTokens finish ts = .error (.tooDeep position)) ∧
    (Derives (ts.map (·.token)) e → ∀ finish' written,
      written.map (·.token) = e.parenthesized → exprOfTokens finish' written = .ok e ∨
        ∃ position, exprOfTokens finish' written = .error (.tooDeep position)) := by
  refine ⟨fun h ↦ ?_, fun h ↦ ?_, fun h finish' written hwritten ↦ ?_⟩
  · obtain ⟨depth, -, h⟩ := exists_phrase_of_exprOfTokens h
    exact ⟨depth, h⟩
  · obtain ⟨depth, h⟩ := h
    exact (h.comesTo_exprOfTokens rfl).ok_or_tooDeep
  · obtain ⟨depth, h, -⟩ := h.counted
    exact (h.comesTo_exprOfTokens hwritten).ok_or_tooDeep

/-- A difference of differences groups to the left, and in no other way. -/
theorem exprOfTokens_decides_differences :
    Derives [.name "a", .symbol .minus, .name "b", .symbol .minus, .name "c"]
      (.binary .sub (.binary .sub (.name "a") (.name "b")) (.name "c")) ∧
    ¬Derives [.name "a", .symbol .minus, .name "b", .symbol .minus, .name "c"]
      (.binary .sub (.name "a") (.binary .sub (.name "b") (.name "c"))) := by
  let ts : List Placed :=
    [⟨.name "a", 0⟩, ⟨.symbol .minus, 2⟩, ⟨.name "b", 4⟩, ⟨.symbol .minus, 6⟩, ⟨.name "c", 8⟩]
  have hread : exprOfTokens 9 ts =
      .ok (.binary .sub (.binary .sub (.name "a") (.name "b")) (.name "c")) := by
    with_unfolding_all rfl
  refine ⟨(exprOfTokens_decides 9 ts _).1 hread, fun h ↦ ?_⟩
  rcases (exprOfTokens_decides 9 ts _).2.1 h with hother | ⟨position, hdeep⟩
  · rw [hread] at hother
    cases hother
  · rw [hread] at hdeep
    cases hdeep

end Completeness

end ReactiveForm
