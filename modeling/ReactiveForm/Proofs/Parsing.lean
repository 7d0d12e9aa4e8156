import ReactiveForm.Proofs.Grammar
import ReactiveForm.Proofs.Outcome

/-!
# Whatever is read is derived

This is one half of the agreement between the reader and the grammar: a tree that comes out of
`conditional` is the tree of a phrase that the tokens taken spell (`completes_conditional`).  That
every phrase is read, as deep as the limit lets it go, is the other half.

## How the proof goes

* **The tables.**  The reader works with tables: of the operators of each chain, of the names that
  are literals, of the members of the built-in name space.  The grammar has the same as relations,
  so each table first gets the lemma that says so (`prefixOp?_eq_some_iff`,
  `namedLiteral?_eq_some_iff`, …).  From there on nothing looks into a table.
* **What a run has done.**  A function of the reader takes tokens from the front of a list and gives
  back the rest.  With what came before them, these tokens make a phrase of the level of that
  function (`Completes`).  Something comes before where a chain is read from the left: the operators
  and operands so far are already a phrase, and the loop makes a longer one of it.
* **The rules.**  For each rule of the grammar that has parts, a lemma puts a `Completes` together
  from those of the parts (`Completes.choice`, `Completes.link`, …).  All that is done with lists of
  tokens is done there.
* **The induction.**  The functions call each other, so they are followed together, along the
  recursion that Lean found for them.  A case takes a successful run apart, into the runs it is
  made of, and applies the lemma about the rule.  Cases in which the reader gives up are void.

How many links and how deep a phrase is does not matter here: `Completes` only says that there are
numbers that fit.  They matter where the limit on nesting is what decides.
-/

set_option autoImplicit false
namespace ReactiveForm

/-! ## The tables of the reader -/

/-- The chains that are read on a level and inside it. -/
def Level.chains : Level → List ChainLevel
  | .disjunction => precedence
  | .conjunction => precedence.drop 1
  | .equality => precedence.drop 2
  | .relation => precedence.drop 3
  | .sum => precedence.drop 4
  | .product => precedence.drop 5
  | _ => []

/-- The levels that are read by `chain`. -/
def Level.IsChain (level : Level) : Prop := 1 ≤ level.rank ∧ level.rank ≤ 7

instance (level : Level) : Decidable level.IsChain :=
  inferInstanceAs (Decidable (1 ≤ level.rank ∧ level.rank ≤ 7))

/-- Of the levels that are read by `chain`, the one with no chains left is that of prefixes. -/
theorem Level.IsChain.eq_prefixed {level : Level} (h : level.IsChain)
    (hchains : level.chains = []) : level = .prefixed := by
  cases level <;> first | rfl | exact absurd h (by decide) | cases hchains

/-- **The first chain of a level** joins what the next tighter level has, with the operators of the
level and no others. -/
theorem Level.chains_eq_cons {level : Level} {c : ChainLevel} {levels : List ChainLevel}
    (h : level.chains = c :: levels) :
    ∃ next, level.tighter? = some next ∧ next.IsChain ∧ next.chains = levels ∧
      ∀ t op, c.op? t = some op ↔ op.level = level ∧ t = .symbol op.symbol := by
  cases level <;> try cases h
  all_goals
    refine ⟨_, rfl, by simp [Level.IsChain, Level.rank], rfl, fun t op ↦ ?_⟩
    constructor
    · intro hop
      cases t with
      | symbol s => cases s <;> cases hop <;> exact ⟨rfl, rfl⟩
      | _ => cases hop
    · rintro ⟨hlevel, rfl⟩
      rcases op with op | op <;> cases op <;> first | rfl | cases hlevel

/-- The reader knows the prefixes by their symbols. -/
theorem prefixOp?_eq_some_iff {t : Token} {op : UnaryOp} :
    prefixOp? t = some op ↔ t = .symbol op.symbol := by
  constructor
  · intro h
    cases t with
    | symbol s => cases s <;> cases h <;> rfl
    | _ => cases h
  · rintro rfl
    cases op <;> rfl

/-- The names that the reader takes for literals are the keywords. -/
theorem namedLiteral?_eq_some_iff {s : String} {l : Literal} :
    namedLiteral? s = some l ↔ Keyword s l := by
  constructor
  · intro h
    unfold namedLiteral? at h
    split at h <;> cases h <;> constructor
  · rintro ⟨⟩ <;> rfl

theorem mathConstant?_eq_some_iff {s : String} {x : Binary64} :
    mathConstant? s = some x ↔ Constant s x := by
  constructor
  · intro h
    unfold mathConstant? at h
    split at h
    · exact Option.some.inj h ▸ .circle
    · exact Option.some.inj h ▸ .euler
    · cases h
  · rintro ⟨⟩ <;> rw [mathConstant?]

theorem MathFunction.ofName?_eq_some_iff {s : String} {f : MathFunction} :
    MathFunction.ofName? s = some f ↔ s = f.name := by
  constructor
  · intro h
    rw [ofName?] at h
    exact (beq_iff_eq.1 (List.find?_some h :)).symm
  · rintro rfl
    cases f <;> rfl

/-! ## What is read is derived -/

/-- **Tokens from the front of a list make a phrase complete**, of which some tokens came before.
What is left of the list is `rest`; the positions of the tokens play no part in the phrase. -/
def Completes (level : Level) (before : List Token) (ts : List Placed) (e : Expr)
    (rest : List Placed) : Prop :=
  ∃ used links depth, ts = used ++ rest ∧
    Phrase level links depth (before ++ used.map (·.token)) e

section Soundness

variable {finish n links depth : Nat} {level next : Level} {before : List Token}
  {ts rest : List Placed} {e object : Expr}

/-- A phrase that is there already is complete without any more tokens. -/
theorem Completes.refl (h : Phrase level links depth before e) (ts : List Placed) :
    Completes level before ts e ts :=
  ⟨[], links, depth, rfl, by rwa [List.map_nil, List.append_nil]⟩

/-- A phrase of the next tighter level is one of the level. -/
theorem Completes.tighter (hnext : level.tighter? = some next)
    (h : Completes next before ts e rest) : Completes level before ts e rest := by
  obtain ⟨used, links, depth, rfl, h⟩ := h
  exact ⟨used, 0, depth, rfl, .tighter hnext h⟩

/-- A phrase that is complete can be what comes before. -/
theorem Completes.trans {after : List Placed} {e' : Expr} {level' : Level}
    (h : Completes level [] ts e rest)
    (hnext : ∀ used links depth, Phrase level links depth used e →
      Completes level' used rest e' after) : Completes level' [] ts e' after := by
  obtain ⟨used, links, depth, rfl, h⟩ := h
  obtain ⟨used', links', depth', rfl, h'⟩ := hnext _ links depth h
  refine ⟨used ++ used', links', depth', (List.append_assoc _ _ _).symm, ?_⟩
  rwa [List.map_append]

/-- Tokens that are taken one by one come before. -/
theorem Completes.cons {t : Placed} (h : Completes level (before ++ [t.token]) ts e rest) :
    Completes level before (t :: ts) e rest := by
  obtain ⟨used, links, depth, rfl, h⟩ := h
  exact ⟨t :: used, links, depth, rfl, by simpa using h⟩

/-! ### The rules of the grammar

Where a rule encloses a phrase between other tokens, the level of that phrase has no links, so the
number of links that `Completes` leaves open is zero (`Phrase.links_eq_zero`). -/

/-- A condition, and the two expressions of which it chooses one. -/
theorem Completes.choice {tail tail' : List Placed} {position position' : Nat} {c y no : Expr}
    (hc : Completes .disjunction [] ts c (⟨.symbol .question, position⟩ :: tail))
    (hy : Completes .conditional [] tail y (⟨.symbol .colon, position'⟩ :: tail'))
    (hno : Completes .conditional [] tail' no rest) :
    Completes .conditional [] ts (.conditional c y no) rest := by
  obtain ⟨ys, ylinks, ydepth, rfl, hy⟩ := hy
  obtain ⟨ns, nlinks, ndepth, rfl, hno⟩ := hno
  refine hc.trans fun used links depth hphrase ↦
    ⟨⟨.symbol .question, position⟩ :: (ys ++ ⟨.symbol .colon, position'⟩ :: ns), 0,
      max depth (max ydepth ndepth + 1), by simp, ?_⟩
  have hchoice := Phrase.choice hphrase (hy.links_eq_zero rfl ▸ hy) (hno.links_eq_zero rfl ▸ hno)
  simpa using hchoice

/-- An operator and its right operand are read, and then what comes behind them. -/
theorem Completes.link {tail after : List Placed} {position : Nat} {left right : Expr}
    (op : ChainOp) (hlevel : op.level = level) (hnext : level.tighter? = some next)
    (hbefore : Phrase level links depth before left) (hright : Completes next [] tail right after)
    (hafter : ∀ before links depth, Phrase level links depth before (op.join left right) →
      Completes level before after e rest) :
    Completes level before (⟨.symbol op.symbol, position⟩ :: tail) e rest := by
  obtain ⟨used, links', depth', rfl, hright⟩ := hright
  obtain ⟨used', links'', depth'', rfl, hall⟩ :=
    hafter _ _ _ (Phrase.link op hlevel hnext hbefore hright)
  exact ⟨⟨.symbol op.symbol, position⟩ :: (used ++ used'), links'', depth'', by simp,
    by simpa using hall⟩

/-- A prefix and what it stands before. -/
theorem Completes.unary {tail : List Placed} {position : Nat} (op : UnaryOp)
    (h : Completes .prefixed [] tail e rest) :
    Completes .prefixed [] (⟨.symbol op.symbol, position⟩ :: tail) (.unary op e) rest := by
  obtain ⟨used, links, depth, rfl, h⟩ := h
  exact ⟨⟨.symbol op.symbol, position⟩ :: used, 0, depth + 1, rfl, .unary op h⟩

/-- An expression in parentheses is an operand. -/
theorem Completes.parentheses {tail : List Placed} {position position' : Nat}
    (h : Completes .conditional [] tail e (⟨.symbol .closing, position'⟩ :: rest)) :
    Completes .operand [] (⟨.symbol .opening, position⟩ :: tail) e rest := by
  obtain ⟨used, links, depth, rfl, h⟩ := h
  have hoperand := Phrase.parentheses (h.links_eq_zero rfl ▸ h)
  exact ⟨⟨.symbol .opening, position⟩ :: (used ++ [⟨.symbol .closing, position'⟩]), 0, depth + 1,
    by simp, by simpa using hoperand⟩

/-! ### The functions of the reader

Those that do not call `conditional` come first; the arguments of a call get what is known of it as
an assumption, so that the induction can use them. -/

/-- If a symbol is asked for and the reader goes on, it was there. -/
theorem expectSymbol_eq_ok {s : Symbol} {expected : String}
    (h : expectSymbol finish s expected ts = .ok rest) :
    ∃ position, ts = ⟨.symbol s, position⟩ :: rest := by
  unfold expectSymbol at h
  split at h
  · rename_i t tail
    split at h
    · rename_i ht
      obtain rfl := Except.ok.inj h
      exact ⟨t.position, by rw [← ht]⟩
    · cases h
  · cases h

/-- If a name is asked for and the reader goes on, it was there. -/
theorem expectName_eq_ok {s expected : String}
    (h : expectName finish expected ts = .ok (s, rest)) :
    ∃ position, ts = ⟨.name s, position⟩ :: rest := by
  unfold expectName at h
  split at h
  · rename_i position tail
    obtain ⟨rfl, rfl⟩ := Prod.mk.inj (Except.ok.inj h)
    exact ⟨position, rfl⟩
  · cases h

/-- Members are read as links of a chain. -/
theorem completes_membersAfter (hbefore : Phrase .members links depth before object)
    (h : membersAfter finish n object ts = .ok (e, rest)) :
    Completes .members before ts e rest := by
  induction n, object, ts using membersAfter.induct generalizing before links depth with
  | case1 n object position hn s position' tail ih =>
    rw [membersAfter, if_pos hn] at h
    exact .cons (.cons (by simpa using ih (.member s hbefore) h))
  | case2 n object position hn tail hname =>
    rw [membersAfter, if_pos hn] at h
    · cases h
    · exact hname
  | case3 n object position tail hn =>
    unfold membersAfter at h
    rw [if_neg hn] at h
    cases h
  | case4 n object position tail =>
    rw [membersAfter] at h
    cases h
  | case5 n object tail hdot hopening =>
    rw [membersAfter] at h
    · obtain ⟨rfl, rfl⟩ := Prod.mk.inj (Except.ok.inj h)
      exact .refl hbefore tail
    · exact hdot
    · exact hopening

/-- The arguments of a call, up to the closing parenthesis. -/
theorem completes_argumentsWith {item : List Placed → Parsed}
    (hitem : ∀ ts e rest, item ts = .ok (e, rest) → Completes .conditional [] ts e rest)
    {bound : Nat} {es : List Expr} (h : argumentsWith finish item bound ts = .ok (es, rest)) :
    ∃ arguments : List Argument, ∃ used : List Placed, ts = used ++ rest ∧ arguments ≠ [] ∧
      (∀ a ∈ arguments, Phrase .conditional 0 a.depth a.tokens a.tree) ∧
      arguments.map (·.tree) = es ∧
      used.map (·.token) = separated (arguments.map (·.tokens)) ++ [.symbol .closing] := by
  induction bound generalizing ts es with
  | zero => cases h
  | succ bound ih =>
    rw [argumentsWith] at h
    obtain ⟨⟨e, after⟩, hfirst, hthen⟩ := exists_of_bind_eq_ok h
    obtain ⟨used, links, depth, rfl, hphrase⟩ := hitem ts e after hfirst
    rw [hphrase.links_eq_zero rfl, List.nil_append] at hphrase
    dsimp only at hthen
    split at hthen
    · rename_i position tail
      obtain ⟨⟨es', rest'⟩, hmore, hlast⟩ := exists_of_bind_eq_ok hthen
      obtain ⟨rfl, rfl⟩ := Prod.mk.inj (Except.ok.inj hlast)
      obtain ⟨arguments, used', rfl, hne, hphrases, htrees, htokens⟩ := ih hmore
      refine ⟨⟨depth, used.map (·.token), e⟩ :: arguments,
        used ++ ⟨.symbol .comma, position⟩ :: used', by simp, List.cons_ne_nil _ _,
        List.forall_mem_cons.2 ⟨hphrase, hphrases⟩, by rw [List.map_cons, htrees], ?_⟩
      rw [List.map_append, List.map_cons, htokens, List.map_cons,
        separated_cons (by simpa using hne), List.append_assoc, List.cons_append]
    · rename_i position tail
      obtain ⟨rfl, rfl⟩ := Prod.mk.inj (Except.ok.inj hthen)
      exact ⟨[⟨depth, used.map (·.token), e⟩], used ++ [⟨.symbol .closing, position⟩], by simp,
        List.cons_ne_nil _ _, List.forall_mem_singleton.2 hphrase, rfl, by
          simp [separated_singleton]⟩
    · cases hthen

/-- The built-in name space is read with one of its members. -/
theorem completes_mathMember {position : Nat} {tail : List Placed}
    (hitem : n < maxNesting → ∀ ts e rest, conditional finish (n + 1) ts = .ok (e, rest) →
      Completes .conditional [] ts e rest)
    (h : operand finish n (⟨.name mathName, position⟩ :: tail) = .ok (e, rest)) :
    Completes .operand [] (⟨.name mathName, position⟩ :: tail) e rest := by
  rw [operand, show namedLiteral? mathName = none from rfl] at h
  dsimp only at h
  rw [if_pos rfl] at h
  obtain ⟨afterDot, hdot, hafterDot⟩ := exists_of_bind_eq_ok h
  obtain ⟨⟨name, afterName⟩, hname, hmember⟩ := exists_of_bind_eq_ok hafterDot
  obtain ⟨position₁, rfl⟩ := expectSymbol_eq_ok hdot
  obtain ⟨position₂, rfl⟩ := expectName_eq_ok hname
  -- three tokens are taken in any case; what the member is decides about the rest
  refine .cons (.cons (.cons ?_))
  clear h hdot hafterDot hname
  dsimp only at hmember
  split at hmember
  · rename_i x hx
    obtain ⟨rfl, rfl⟩ := Prod.mk.inj (Except.ok.inj hmember)
    exact .refl (.constant (mathConstant?_eq_some_iff.1 hx)) _
  · cases hmember
  · rename_i f _ hf
    obtain rfl := MathFunction.ofName?_eq_some_iff.1 hf
    obtain ⟨inside, hopening, hinside⟩ := exists_of_bind_eq_ok hmember
    obtain ⟨position₃, rfl⟩ := expectSymbol_eq_ok hopening
    clear hmember hopening
    split at hinside
    · rename_i hn
      split at hinside
      · rename_i position₄ last
        obtain ⟨rfl, rfl⟩ := Prod.mk.inj (Except.ok.inj hinside)
        exact .cons (.cons (.refl (.call f [] (by simp)) _))
      · obtain ⟨⟨es, last⟩, harguments, hcall⟩ := exists_of_bind_eq_ok hinside
        obtain ⟨rfl, rfl⟩ := Prod.mk.inj (Except.ok.inj hcall)
        obtain ⟨arguments, used, rfl, -, hphrases, rfl, htokens⟩ :=
          completes_argumentsWith (hitem hn) harguments
        refine ⟨⟨.symbol .opening, position₃⟩ :: used, 0,
          (arguments.map (·.depth)).foldr max 0 + 1, rfl, ?_⟩
        rw [List.map_cons, htokens]
        exact .call f arguments hphrases
    · cases hinside

/-- **Whatever is read is derived.** -/
theorem completes_conditional (h : conditional finish n ts = .ok (e, rest)) :
    Completes .conditional [] ts e rest := by
  -- a statement for each function: `chain` reads the level whose chains it is given, and
  -- `chainAfter` goes on with a phrase of that level, which `before` spells
  refine (conditional.mutual_induct
    (fun n ts ↦ ∀ e rest, conditional finish n ts = .ok (e, rest) →
      Completes .conditional [] ts e rest)
    (fun levels n ts ↦ ∀ level : Level, level.IsChain → level.chains = levels →
      ∀ e rest, chain finish levels n ts = .ok (e, rest) → Completes level [] ts e rest)
    (fun c levels n left ts ↦ ∀ level : Level, level.chains = c :: levels →
      ∀ before links depth, Phrase level links depth before left →
      ∀ e rest, chainAfter finish c levels n left ts = .ok (e, rest) →
        Completes level before ts e rest)
    (fun n ts ↦ ∀ e rest, prefixed finish n ts = .ok (e, rest) → Completes .prefixed [] ts e rest)
    (fun n ts ↦ ∀ e rest, operand finish n ts = .ok (e, rest) → Completes .operand [] ts e rest)
    ?conditional ?chainEnd ?chain ?afterNothing ?afterOther ?afterLink ?afterDeep
    ?prefixedNothing ?unprefixed ?prefixed ?prefixedDeep
    ?number ?text ?keyword ?math ?name ?parentheses ?parenthesesDeep ?other).1 n ts e rest h
  case conditional =>
    intro n ts ihcondition ihyes ihno e rest h
    rw [conditional] at h
    obtain ⟨⟨c, after⟩, hcondition, hthen⟩ := exists_of_bind_eq_ok h
    have hc := ihcondition .disjunction (by decide) rfl c after hcondition
    dsimp only at hthen
    split at hthen
    · rename_i position tail
      split at hthen
      · rename_i hn
        obtain ⟨⟨y, colon⟩, hyes, hcolon⟩ := exists_of_bind_eq_ok hthen
        obtain ⟨tail', htail, hlast⟩ := exists_of_bind_eq_ok hcolon
        obtain ⟨⟨no, last⟩, hno, hresult⟩ := exists_of_bind_eq_ok hlast
        obtain ⟨rfl, rfl⟩ := Prod.mk.inj (Except.ok.inj hresult)
        obtain ⟨position', rfl⟩ := expectSymbol_eq_ok htail
        exact hc.choice (ihyes tail hn y _ hyes) (ihno hn tail' no last hno)
      · cases hthen
    · obtain ⟨rfl, rfl⟩ := Prod.mk.inj (Except.ok.inj hthen)
      exact hc.tighter rfl
  case chainEnd =>
    intro n ts ih level hlevel hchains e rest h
    rw [chain] at h
    -- no chain is left to read, so this is the level below all chains
    obtain rfl := hlevel.eq_prefixed hchains
    exact ih e rest h
  case chain =>
    intro n ts c levels ih ihafter level hlevel hchains e rest h
    rw [chain] at h
    obtain ⟨⟨left, after⟩, hleft, hthen⟩ := exists_of_bind_eq_ok h
    obtain ⟨next, hnext, hchain, hlevels, -⟩ := Level.chains_eq_cons hchains
    exact (ih next hchain hlevels left after hleft).trans fun used links depth hphrase ↦
      ihafter left after level hchains used 0 depth (.tighter hnext hphrase) e rest hthen
  case afterNothing =>
    intro c levels n left level hchains before links depth hbefore e rest h
    rw [chainAfter] at h
    obtain ⟨rfl, rfl⟩ := Prod.mk.inj (Except.ok.inj h)
    exact .refl hbefore []
  case afterOther =>
    intro c levels n left t tail hop level hchains before links depth hbefore e rest h
    rw [chainAfter_of_none hop] at h
    obtain ⟨rfl, rfl⟩ := Prod.mk.inj (Except.ok.inj h)
    exact .refl hbefore _
  case afterLink =>
    -- what has been read with the operator and its right operand is what comes before the rest
    intro c levels n left t tail op hop hn ih ihafter level hchains before links depth hbefore
      e rest h
    rw [chainAfter_of_some hop, if_pos hn] at h
    obtain ⟨⟨right, after⟩, hright, hthen⟩ := exists_of_bind_eq_ok h
    obtain ⟨next, hnext, hchain, hlevels, hops⟩ := Level.chains_eq_cons hchains
    obtain ⟨token, position⟩ := t
    obtain ⟨hlevel, rfl⟩ := (hops _ _).1 hop
    exact .link op hlevel hnext hbefore (ih next hchain hlevels right after hright)
      fun before links depth hlink ↦
        ihafter right after level hchains before links depth hlink e rest hthen
  case afterDeep =>
    intro c levels n left t tail op hop hn level hchains before links depth hbefore e rest h
    rw [chainAfter_of_some hop, if_neg hn] at h
    cases h
  case prefixedNothing =>
    intro n e rest h
    rw [prefixed] at h
    cases h
  case unprefixed =>
    intro n t tail hop ih e rest h
    rw [prefixed_of_none hop] at h
    obtain ⟨⟨object, after⟩, hobject, hthen⟩ := exists_of_bind_eq_ok h
    refine .tighter rfl ((ih object after hobject).trans fun used links depth hphrase ↦ ?_)
    exact completes_membersAfter (.tighter rfl hphrase) hthen
  case prefixed =>
    intro n t tail op hop hn ih e rest h
    rw [prefixed_of_some hop, if_pos hn] at h
    obtain ⟨⟨inner, after⟩, hinner, hthen⟩ := exists_of_bind_eq_ok h
    obtain ⟨rfl, rfl⟩ := Prod.mk.inj (Except.ok.inj hthen)
    obtain ⟨token, position⟩ := t
    obtain rfl := prefixOp?_eq_some_iff.1 hop
    exact .unary op (ih inner after hinner)
  case prefixedDeep =>
    intro n t tail op hop hn e rest h
    rw [prefixed_of_some hop, if_neg hn] at h
    cases h
  case number =>
    intro n x position tail e rest h
    rw [operand_number] at h
    obtain ⟨rfl, rfl⟩ := Prod.mk.inj (Except.ok.inj h)
    exact .cons (.refl (.number x) _)
  case text =>
    intro n s position tail e rest h
    rw [operand_text] at h
    obtain ⟨rfl, rfl⟩ := Prod.mk.inj (Except.ok.inj h)
    exact .cons (.refl (.text s) _)
  case keyword =>
    intro n s position tail l hl e rest h
    rw [operand_of_namedLiteral hl] at h
    obtain ⟨rfl, rfl⟩ := Prod.mk.inj (Except.ok.inj h)
    exact .cons (.refl (.keyword (namedLiteral?_eq_some_iff.1 hl)) _)
  case math =>
    intro n position tail _ ih e rest h
    exact completes_mathMember ih h
  case name =>
    intro n s position tail hl hs e rest h
    rw [operand_of_ne_math hl hs] at h
    obtain ⟨rfl, rfl⟩ := Prod.mk.inj (Except.ok.inj h)
    -- a name is a phrase if it is no keyword, and the table would have known one
    refine .cons (.refl (.name (fun l hkeyword ↦ ?_) hs) _)
    rw [namedLiteral?_eq_some_iff.2 hkeyword] at hl
    cases hl
  case parentheses =>
    intro n position tail hn ih e rest h
    rw [operand_opening, if_pos hn] at h
    obtain ⟨⟨inner, closing⟩, hinner, hthen⟩ := exists_of_bind_eq_ok h
    obtain ⟨tail', hclosing, hresult⟩ := exists_of_bind_eq_ok hthen
    obtain ⟨rfl, rfl⟩ := Prod.mk.inj (Except.ok.inj hresult)
    obtain ⟨position', rfl⟩ := expectSymbol_eq_ok hclosing
    exact .parentheses (ih inner _ hinner)
  case parenthesesDeep =>
    intro n position tail hn e rest h
    rw [operand_opening, if_neg hn] at h
    cases h
  case other =>
    intro n ts hnumber htext hname hopening e rest h
    rw [operand] at h
    · cases h
    · exact hnumber
    · exact htext
    · exact hname
    · exact hopening

end Soundness

end ReactiveForm
