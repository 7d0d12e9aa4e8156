import ReactiveForm.Proofs.Following

/-!
# A reading with a cursor comes to its end

Reading with a cursor does what the reading that takes the level as an argument does
(`Follows`): it ends, and with the same answer (`TokenStream.readAll_ofTokens`).  On its way the
cursor is never behind the last end mark and the depth never beyond the limit; after a chain, an
operand with its members, or the inside of something, the depth is what it was before, and each of
them takes at least one word (`reading_endsWell`).

The depth is not set back by the loops.  The operands of a chain and the members of an operand are
read level by level, and it is only the function around the loop that goes back to the level it
came from.  How far down a loop goes is a matter of the words, and `operatorsTaken` and
`membersTaken` count it without a cursor, so that what is said of the loops is an equation as well.

That the reading ends is proved along the way in which the other reading calls itself
(`follows_conditional`).  This way is bounded by the limit of nesting alone, but for the arguments
of a call: there every round takes a word (`follows_argumentsWith`).

## What is here

* `operatorsTaken` and `membersTaken` — how many rounds the two loops make.  Where there is no fault
  these are the operators that the tree of a chain is joined with (`chainAfter_eq_join`) and the
  members that its operand has (`membersAfter_eq_members`).
* `follows_members`, `follows_operands`, `follows_arguments`, `follows_math`, … — one lemma for each
  function: it follows its counterpart if the functions do which it calls.
* `follows_conditional` — the functions that call each other, closed by the induction of the other
  reading.
* `EndsWell` and `reading_endsWell` — what is left of all this when the other reading is forgotten:
  from any place within any stream every function comes to an end, with its depth known.
-/

set_option autoImplicit false
namespace ReactiveForm

/-! ## What the loops add to the depth

The operands of a chain and the members after an operand are read in loops.  Each round goes one
level further down and none of them goes back, so what a loop leaves behind is the number of its
rounds.  The words alone tell how many there are. -/

/-- **How many operators of a level are passed over** from some words on: those up to the end of the
chain, or up to the first one that is too deep or has a fault behind it.  The last of these has been
passed over when the fault turns up, and counts. -/
def operatorsTaken (finish : Nat) (level : ChainLevel) (levels : List ChainLevel) (n : Nat)
    (ts : List Placed) : Nat :=
  match ts with
  | [] => 0
  | t :: rest =>
    match level.op? t.token with
    | none => 0
    | some _ =>
      if n < maxNesting then
        raisedBy (chain finish levels (n + 1) rest)
          (fun rest ↦ operatorsTaken finish level levels (n + 1) rest) + 1
      else 0
termination_by maxNesting - n

/-- **How many points before members are passed over** from some words on. -/
def membersTaken (n : Nat) : List Placed → Nat
  | ⟨.symbol .dot, _⟩ :: rest =>
    if n < maxNesting then
      match rest with
      | ⟨.name _, _⟩ :: rest => membersTaken (n + 1) rest + 1
      | _ => 1
    else 0
  | _ => 0

section

variable {finish n : Nat} {level : ChainLevel} {levels : List ChainLevel} {t : Placed}
  {ts rest : List Placed}

theorem operatorsTaken_nil : operatorsTaken finish level levels n [] = 0 := by
  rw [operatorsTaken]

theorem operatorsTaken_of_none (hop : level.op? t.token = none) :
    operatorsTaken finish level levels n (t :: rest) = 0 := by
  rw [operatorsTaken, hop]

/-- At an operator, one is taken, and those behind its right operand if that has no fault. -/
theorem operatorsTaken_of_some {op : ChainOp} (hop : level.op? t.token = some op) :
    operatorsTaken finish level levels n (t :: rest) =
      if n < maxNesting then
        raisedBy (chain finish levels (n + 1) rest) (operatorsTaken finish level levels (n + 1)) + 1
      else 0 := by
  rw [operatorsTaken, hop]

/-- At a point with a name, one is taken, and those behind the name. -/
theorem membersTaken_name {point position : Nat} {property : String} (hn : n < maxNesting) :
    membersTaken n (⟨.symbol .dot, point⟩ :: ⟨.name property, position⟩ :: rest) =
      membersTaken (n + 1) rest + 1 := by
  rw [membersTaken, if_pos hn]

/-- A point without a name is passed over, and nothing behind it. -/
theorem membersTaken_of_ne_name {point : Nat} (hn : n < maxNesting)
    (h : ∀ name position rest, ts ≠ ⟨.name name, position⟩ :: rest) :
    membersTaken n (⟨.symbol .dot, point⟩ :: ts) = 1 := by
  rw [membersTaken, if_pos hn]
  exact h

/-- At the limit no point is passed over. -/
theorem membersTaken_of_not_lt {point : Nat} (hn : ¬n < maxNesting) :
    membersTaken n (⟨.symbol .dot, point⟩ :: ts) = 0 := by
  unfold membersTaken
  exact if_neg hn

theorem membersTaken_of_ne_dot (h : ∀ position rest, ts ≠ ⟨.symbol .dot, position⟩ :: rest) :
    membersTaken n ts = 0 := by
  unfold membersTaken
  split
  · exact absurd rfl (h _ _)
  · rfl

/-- Where there is no fault, **the operators passed over are those that the tree was made with**:
the chain is joined from the left, and the operators are as many as the joins. -/
theorem chainAfter_eq_join {left e : Expr}
    (h : chainAfter finish level levels n left ts = .ok (e, rest)) :
    ∃ links : List (ChainOp × Expr), links.length = operatorsTaken finish level levels n ts ∧
      e = links.foldl (fun left link ↦ link.1.join left link.2) left := by
  fun_induction operatorsTaken finish level levels n ts generalizing left with
  | case1 n =>
    rw [chainAfter] at h
    obtain ⟨rfl, -⟩ := Prod.mk.inj (Except.ok.inj h)
    exact ⟨[], rfl, rfl⟩
  | case2 n t tail hop =>
    rw [chainAfter_of_none hop] at h
    obtain ⟨rfl, -⟩ := Prod.mk.inj (Except.ok.inj h)
    exact ⟨[], rfl, rfl⟩
  | case3 n t tail op hop hn ih =>
    rw [chainAfter_of_some hop, if_pos hn] at h
    cases hright : chain finish levels (n + 1) tail with
    | error e =>
      rw [hright] at h
      cases h
    | ok right =>
      rw [hright] at h
      obtain ⟨links, hlength, rfl⟩ := ih right.2 h
      exact ⟨(op, right.1) :: links, congrArg (· + 1) hlength, rfl⟩
  | case4 n t tail op hop hn =>
    rw [chainAfter_of_some hop, if_neg hn] at h
    cases h

/-- Where there is no fault, the points passed over are those of the members in the tree. -/
theorem membersAfter_eq_members {object e : Expr}
    (h : membersAfter finish n object ts = .ok (e, rest)) :
    ∃ properties : List String, properties.length = membersTaken n ts ∧
      e = properties.foldl .member object := by
  fun_induction membersAfter finish n object ts with
  | case1 n object point hn property position ts ih =>
    obtain ⟨properties, hlength, rfl⟩ := ih h
    exact ⟨property :: properties, by rw [membersTaken_name hn, List.length_cons, hlength], rfl⟩
  | case2 => cases h
  | case3 => cases h
  | case4 => cases h
  | case5 n object ts hdot =>
    obtain ⟨rfl, -⟩ := Prod.mk.inj (Except.ok.inj h)
    exact ⟨[], (membersTaken_of_ne_dot hdot).symm, rfl⟩

end

/-! ## The grammar

A lemma for each function of the reading: it follows its counterpart if what it calls does.  The
proofs have the shape of the functions, and the rules of `Follows` in the order of the steps. -/

section

variable {s : TokenStream} {stop finish n : Nat} {ts : List Placed}

/-- The loop over members goes one level down for each point that it passes over. -/
theorem follows_membersAfter (object : Expr) (ts : List Placed) :
    Follows s stop finish (membersTaken n ts) 0 n ts (s.readMembersAfter object)
      (membersAfter finish n object ts) := by
  fun_induction membersAfter finish n object ts
  all_goals refine .succ (fun _ ↦ rfl) ?_
  simp only [TokenStream.readMembersAfter]
  all_goals refine .current ?_
  case case1 n object point hn property position rest ih =>
    -- one level down, over the point and the name, and on with the members behind them
    rw [membersTaken_name hn]
    refine .descend _ hn (.weaken 1 (.bind_ok .advance (.weaken 1 ?_)))
    exact .bind_ok (.name _) ih
  case case2 n object point hn ts hname =>
    -- the level has been entered when the name turns out to be missing
    have hread : Follows s stop finish 0 1 (n + 1) ts
        (fun _ ↦ s.readName "property name after `.`") _ := .name _
    rw [expectName_of_ne _ hname] at hread
    rw [membersTaken_of_ne_name hn hname]
    exact .descend _ hn (.weaken 1 (.bind_ok .advance (.weaken 1 hread.bind_fault)))
  case case3 hn =>
    rw [membersTaken_of_not_lt hn]
    exact .tooDeep _ hn
  case case4 => exact .throw _
  case case5 hdot hopening =>
    rw [membersTaken_of_ne_dot hdot]
    split
    rename_i hentry
    split
    · obtain ⟨position, rest, heq⟩ := eq_cons_of_firstEntry (congrArg Prod.fst hentry)
      exact (hdot position rest heq).elim
    · obtain ⟨position, rest, heq⟩ := eq_cons_of_firstEntry (congrArg Prod.fst hentry)
      exact (hopening position rest heq).elim
    · exact .pure _

/-- An operand with its members, of which the operand sets the depth back and the members do not. -/
theorem follows_members {parsed : Parsed}
    (h : Follows s stop finish 0 1 n ts s.readOperand parsed) :
    Follows s stop finish (raisedBy parsed (membersTaken n)) 1 n ts s.readMembers
      (parsed >>= fun p ↦ membersAfter finish n p.1 p.2) := by
  refine .succ (fun _ ↦ rfl) ?_
  simp only [TokenStream.readMembers]
  exact h.bind_raising fun object rest _ _ ↦ follows_membersAfter object rest

/-- Around the members the depth is set back. -/
theorem follows_readPostfix {parsed : Parsed}
    (h : Follows s stop finish 0 1 n ts s.readOperand parsed) :
    Follows s stop finish 0 1 n ts s.readPostfix
      (parsed >>= fun p ↦ membersAfter finish n p.1 p.2) := by
  refine .succ (fun _ ↦ rfl) ?_
  simp only [TokenStream.readPostfix]
  exact .restore (follows_members h)

/-- The operands of a chain: the first one sets the depth back, the loop behind it does not. -/
theorem follows_operands {level : ChainLevel} {levels : List ChainLevel}
    (h : Follows s stop finish 0 1 n ts (s.readChain levels) (chain finish levels n ts))
    (hafter : ∀ left rest,
      Follows s stop finish (operatorsTaken finish level levels n rest) 0 n rest
        (s.readOperandsAfter level levels left) (chainAfter finish level levels n left rest)) :
    Follows s stop finish
      (raisedBy (chain finish levels n ts) (operatorsTaken finish level levels n)) 1 n ts
      (s.readOperands level levels) (chain finish (level :: levels) n ts) := by
  refine .succ (fun _ ↦ rfl) ?_
  simp only [TokenStream.readOperands]
  rw [chain]
  exact h.bind_raising fun left rest _ _ ↦ hafter left rest

/-- Where no operand begins, both readings give up with the same words. -/
theorem follows_other (hnumber : ∀ x position rest, ts ≠ ⟨.number x, position⟩ :: rest)
    (htext : ∀ text position rest, ts ≠ ⟨.text text, position⟩ :: rest)
    (hname : ∀ name position rest, ts ≠ ⟨.name name, position⟩ :: rest)
    (hopening : ∀ position rest, ts ≠ ⟨.symbol .opening, position⟩ :: rest) :
    Follows s stop finish 0 1 n ts s.readOperand (.error (unexpected finish "operand" ts)) := by
  refine .succ (fun _ ↦ rfl) ?_
  simp only [TokenStream.readOperand]
  refine .current ?_
  split
  · rename_i htoken
    obtain ⟨position, rest, heq⟩ := eq_cons_of_firstEntry htoken
    exact absurd heq (hnumber _ position rest)
  · rename_i htoken
    obtain ⟨position, rest, heq⟩ := eq_cons_of_firstEntry htoken
    exact absurd heq (htext _ position rest)
  · rename_i htoken
    obtain ⟨position, rest, heq⟩ := eq_cons_of_firstEntry htoken
    exact absurd heq (hname _ position rest)
  · rename_i htoken
    obtain ⟨position, rest, heq⟩ := eq_cons_of_firstEntry htoken
    exact absurd heq (hopening position rest)
  · rw [describeEntry_firstEntry]
    exact .throw _

/-- **Every round takes a word**, so there are no more rounds than words. -/
theorem follows_argumentsWith
    (h : ∀ ts, Follows s stop finish 0 1 n ts s.readConditional (conditional finish n ts))
    (bound : Nat) (ts : List Placed) (hbound : ts.length < bound) :
    Follows s stop finish 0 1 n ts s.readArgumentsFrom
      (argumentsWith finish (fun ts ↦ conditional finish n ts) bound ts) := by
  induction bound generalizing ts with
  | zero => exact absurd hbound (Nat.not_lt_zero _)
  | succ bound ih =>
    refine .succ (fun _ ↦ rfl) ?_
    simp only [TokenStream.readArgumentsFrom]
    rw [argumentsWith]
    refine (h ts).bind fun e after hlength _ ↦ ?_
    -- without a comma this was the last argument, whether or not the parenthesis is there
    have hlast : Follows s stop finish 0 1 n after
        (fun _ ↦ do s.readSymbol .closing "`)` after arguments"; return [e])
        (expectSymbol finish .closing "`)` after arguments" after >>= fun rest ↦ .ok ([e], rest)) :=
      .symbol fun rest ↦ .pure [e]
    dsimp only
    split
    · refine .weaken 1 (.bind_ok .passes (.weaken 1 ?_))
      rw [List.length_cons] at hlength
      exact (ih _ (by omega)).bind fun es rest _ _ ↦ .pure _
    · rw [expectSymbol_cons] at hlast
      exact .passes_not nofun (hlast.weaken 1)
    · rename_i hcomma hclosing
      rw [expectSymbol_of_ne _ hclosing] at hlast
      exact .passes_not hcomma (hlast.weaken 1)

/-- The arguments of a call as the other reading reads them. -/
def argumentList (finish n : Nat) : List Placed → Except ExpressionError (List Expr × List Placed)
  | ⟨.symbol .closing, _⟩ :: rest => .ok ([], rest)
  | ts => argumentsWith finish (fun ts ↦ conditional finish n ts) (ts.length + 1) ts

theorem argumentList_of_ne (h : ∀ position rest, ts ≠ ⟨.symbol .closing, position⟩ :: rest) :
    argumentList finish n ts =
      argumentsWith finish (fun ts ↦ conditional finish n ts) (ts.length + 1) ts := by
  unfold argumentList
  split
  · exact absurd rfl (h _ _)
  · rfl

/-- No arguments, or one and those behind it. -/
theorem follows_arguments
    (h : ∀ ts, Follows s stop finish 0 1 n ts s.readConditional (conditional finish n ts))
    (ts : List Placed) :
    Follows s stop finish 0 1 n ts s.readArguments (argumentList finish n ts) := by
  refine .succ (fun _ ↦ rfl) ?_
  simp only [TokenStream.readArguments]
  by_cases hclosing : ∃ position rest, ts = ⟨.symbol .closing, position⟩ :: rest
  · obtain ⟨position, rest, rfl⟩ := hclosing
    exact .bind_ok .passes (.pure _)
  · have hne : ∀ position rest, ts ≠ ⟨.symbol .closing, position⟩ :: rest :=
      fun position rest heq ↦ hclosing ⟨position, rest, heq⟩
    rw [argumentList_of_ne hne]
    exact .passes_not hne (follows_argumentsWith h _ ts (Nat.lt_succ_self _))

/-! ## What is inside of something

What is read on the next level: the branches of a condition, the operand of a prefix, parentheses,
and the arguments of a call. -/

/-- Between the question mark and the end of a conditional expression. -/
theorem follows_branches (condition : Expr)
    (h : ∀ ts, Follows s stop finish 0 1 n ts s.readConditional (conditional finish n ts))
    (ts : List Placed) : Follows s stop finish 0 1 n ts (s.readInside (.branches condition)) (do
      let (yes, rest) ← conditional finish n ts
      let rest ← expectSymbol finish .colon "`:` in conditional expression" rest
      let (no, rest) ← conditional finish n rest
      .ok (.conditional condition yes no, rest)) := by
  refine .succ (fun _ ↦ rfl) ?_
  simp only [TokenStream.readInside]
  refine (h ts).bind fun yes rest _ _ ↦ .weaken 1 (.symbol fun rest ↦ .weaken 1 ?_)
  exact (h rest).bind fun no rest _ _ ↦ .pure _

/-- Behind a prefix. -/
theorem follows_applied (op : UnaryOp)
    (h : Follows s stop finish 0 1 n ts s.readPrefixed (prefixed finish n ts)) :
    Follows s stop finish 0 1 n ts (s.readInside (.operand op)) (do
      let (e, rest) ← prefixed finish n ts
      .ok (.unary op e, rest)) := by
  refine .succ (fun _ ↦ rfl) ?_
  simp only [TokenStream.readInside]
  exact h.bind fun e rest _ _ ↦ .pure _

/-- Behind an opening parenthesis. -/
theorem follows_parentheses
    (h : Follows s stop finish 0 1 n ts s.readConditional (conditional finish n ts)) :
    Follows s stop finish 0 1 n ts (s.readInside .parentheses) (do
      let (e, rest) ← conditional finish n ts
      let rest ← expectSymbol finish .closing "`)`" rest
      .ok (e, rest)) := by
  refine .succ (fun _ ↦ rfl) ?_
  simp only [TokenStream.readInside]
  exact h.bind fun e rest _ _ ↦ .weaken 1 (.symbol fun rest ↦ .pure _)

/-- Behind the opening parenthesis of a call. -/
theorem follows_call (function : MathFunction)
    (h : ∀ ts, Follows s stop finish 0 1 n ts s.readConditional (conditional finish n ts))
    (ts : List Placed) : Follows s stop finish 0 1 n ts (s.readInside (.arguments function)) (do
      let (es, rest) ← argumentList finish n ts
      .ok (.call function es, rest)) := by
  refine .succ (fun _ ↦ rfl) ?_
  simp only [TokenStream.readInside]
  exact (follows_arguments h ts).bind fun es rest _ _ ↦ .pure _

/-- **The built-in name space**: a constant is there at once, and a function has its arguments on
the next level. -/
theorem follows_math (position : Nat)
    (h : n < maxNesting → ∀ ts,
      Follows s stop finish 0 1 (n + 1) ts s.readConditional (conditional finish (n + 1) ts))
    (ts : List Placed) : Follows s stop finish 0 1 n ts (s.readMath position)
      (operand finish n (⟨.name mathName, position⟩ :: ts)) := by
  have hl : namedLiteral? mathName = none := rfl
  refine .succ (fun _ ↦ rfl) ?_
  simp only [TokenStream.readMath]
  rw [operand, hl]
  dsimp only
  rw [if_pos rfl]
  refine .symbol fun rest ↦ .current (.weaken 1 ?_)
  refine (Follows.name _).bind fun member after _ _ ↦ ?_
  dsimp only
  generalize mathConstant? member = x?
  generalize MathFunction.ofName? member = function?
  cases x? with
  | some x => exact .pure _
  | none =>
    cases function? with
    | none => exact .throw _
    | some function =>
      refine .weaken 1 (.symbol fun inside ↦ .weaken 1 (.within fun hn ↦ ?_))
      -- the other reading asks for an empty list of arguments first, as `argumentList` does
      have hcall := follows_call function (h hn) inside
      split
      · exact hcall
      · rename_i hne
        rwa [argumentList_of_ne hne] at hcall

/-- The functions that call each other follow those of the other reading, on all levels up to the
limit: what is to be shown of them together. -/
theorem follows_conditional (s : TokenStream) (stop finish : Nat) :
    (∀ n ts, Follows s stop finish 0 1 n ts s.readConditional (conditional finish n ts)) ∧
    (∀ levels n ts, Follows s stop finish 0 1 n ts (s.readChain levels)
      (chain finish levels n ts)) ∧
    (∀ level levels n left ts,
      Follows s stop finish (operatorsTaken finish level levels n ts) 0 n ts
        (s.readOperandsAfter level levels left) (chainAfter finish level levels n left ts)) ∧
    (∀ n ts, Follows s stop finish 0 1 n ts s.readPrefixed (prefixed finish n ts)) ∧
    ∀ n ts, Follows s stop finish 0 1 n ts s.readOperand (operand finish n ts) := by
  refine conditional.mutual_induct
    (fun n ts ↦ Follows s stop finish 0 1 n ts s.readConditional (conditional finish n ts))
    (fun levels n ts ↦ Follows s stop finish 0 1 n ts (s.readChain levels)
      (chain finish levels n ts))
    (fun level levels n left ts ↦
      Follows s stop finish (operatorsTaken finish level levels n ts) 0 n ts
        (s.readOperandsAfter level levels left) (chainAfter finish level levels n left ts))
    (fun n ts ↦ Follows s stop finish 0 1 n ts s.readPrefixed (prefixed finish n ts))
    (fun n ts ↦ Follows s stop finish 0 1 n ts s.readOperand (operand finish n ts))
    ?conditional ?chainEnd ?chain ?afterNothing ?afterOther ?afterLink ?afterDeep
    ?prefixedNothing ?unprefixed ?prefixed ?prefixedDeep
    ?number ?text ?keyword ?math ?name ?parentheses ?parenthesesDeep ?other
  case conditional =>
    intro n ts ihcondition _ ihbranch
    refine .succ (fun _ ↦ rfl) ?_
    simp only [TokenStream.readConditional]
    rw [conditional]
    refine ihcondition.bind fun condition after _ _ ↦ ?_
    dsimp only
    split
    · rename_i position rest _ _
      refine .weaken 1 (.bind_ok .passes (.current (.weaken 1 (.within fun hn ↦ ?_))))
      exact follows_branches condition (ihbranch hn) rest
    · rename_i hquestion
      exact .passes_not hquestion (.pure _)
  case chainEnd =>
    intro n ts ih
    refine .succ (fun _ ↦ rfl) ?_
    simp only [TokenStream.readChain]
    rw [chain]
    exact ih
  case chain =>
    intro n ts level levels ih ihafter
    refine .succ (fun _ ↦ rfl) ?_
    simp only [TokenStream.readChain]
    exact .restore (follows_operands ih ihafter)
  case afterNothing =>
    intro level levels n left
    refine .succ (fun _ ↦ rfl) ?_
    simp only [TokenStream.readOperandsAfter]
    rw [chainAfter, operatorsTaken_nil]
    exact .current (.pure left)
  case afterOther =>
    intro level levels n left t tail hop
    refine .succ (fun _ ↦ rfl) ?_
    simp only [TokenStream.readOperandsAfter]
    rw [chainAfter_of_none hop, operatorsTaken_of_none hop]
    refine .current ?_
    simp only [firstEntry_cons, Option.bind_some, hop]
    exact .pure _
  case afterLink =>
    intro level levels n left t tail op hop hn ih ihafter
    refine .succ (fun _ ↦ rfl) ?_
    simp only [TokenStream.readOperandsAfter]
    rw [chainAfter_of_some hop, operatorsTaken_of_some hop, if_pos hn, if_pos hn]
    refine .current ?_
    simp only [firstEntry_cons, Option.bind_some, hop]
    refine .descend _ hn (.weaken 1 (.bind_ok .advance (.weaken 1 ?_)))
    -- the operand sets the depth back to the level of the operator, where the loop goes on
    exact ih.bind_raising fun right rest _ _ ↦ ihafter right rest
  case afterDeep =>
    intro level levels n left t tail op hop hn
    refine .succ (fun _ ↦ rfl) ?_
    simp only [TokenStream.readOperandsAfter]
    rw [chainAfter_of_some hop, operatorsTaken_of_some hop, if_neg hn, if_neg hn]
    refine .current ?_
    simp only [firstEntry_cons, Option.bind_some, hop]
    exact .tooDeep _ hn
  case prefixedNothing =>
    intro n
    refine .succ (fun _ ↦ rfl) ?_
    simp only [TokenStream.readPrefixed]
    rw [prefixed]
    have hoperand : Follows s stop finish 0 1 n [] s.readOperand
        (.error (unexpected finish "operand" [])) :=
      follows_other (by simp) (by simp) (by simp) (by simp)
    exact .current (follows_readPostfix hoperand)
  case unprefixed =>
    intro n t tail hop ih
    refine .succ (fun _ ↦ rfl) ?_
    simp only [TokenStream.readPrefixed]
    rw [prefixed_of_none hop]
    refine .current ?_
    simp only [firstEntry_cons, Option.bind_some, hop]
    exact follows_readPostfix ih
  case prefixed =>
    intro n t tail op hop hn ih
    refine .succ (fun _ ↦ rfl) ?_
    simp only [TokenStream.readPrefixed]
    rw [prefixed_of_some hop]
    refine .current ?_
    simp only [firstEntry_cons, Option.bind_some, hop]
    exact .bind_ok .advance (.weaken 1 (.within fun _ ↦ follows_applied op ih))
  case prefixedDeep =>
    -- the prefix is passed over before the level is looked at
    intro n t tail op hop hn
    refine .succ (fun _ ↦ rfl) ?_
    simp only [TokenStream.readPrefixed]
    rw [prefixed_of_some hop]
    refine .current ?_
    simp only [firstEntry_cons, Option.bind_some, hop]
    exact .bind_ok .advance (.weaken 1 (.within fun hn' ↦ absurd hn' hn))
  case number =>
    intro n x position rest
    refine .succ (fun _ ↦ rfl) ?_
    simp only [TokenStream.readOperand]
    rw [operand_number]
    exact .current (.bind_ok .advance (.pure _))
  case text =>
    intro n text position rest
    refine .succ (fun _ ↦ rfl) ?_
    simp only [TokenStream.readOperand]
    rw [operand_text]
    exact .current (.bind_ok .advance (.pure _))
  case keyword =>
    intro n name position rest l hl
    refine .succ (fun _ ↦ rfl) ?_
    simp only [TokenStream.readOperand]
    rw [operand_of_namedLiteral hl]
    refine .current (.bind_ok .advance ?_)
    simp only [hl]
    exact .pure _
  case math =>
    -- the name itself is passed over here, and what is behind it is read by a function of its own
    intro n position rest hl ih
    refine .succ (fun _ ↦ rfl) ?_
    simp only [TokenStream.readOperand]
    refine .current (.bind_ok .advance ?_)
    simp only [hl]
    exact (follows_math position ih rest).weaken 1
  case name =>
    intro n name position rest hl hname
    refine .succ (fun _ ↦ rfl) ?_
    simp only [TokenStream.readOperand]
    rw [operand_of_ne_math hl hname]
    refine .current (.bind_ok .advance ?_)
    simp only [hl, if_neg hname]
    exact .pure _
  case parentheses =>
    intro n position rest hn ih
    refine .succ (fun _ ↦ rfl) ?_
    simp only [TokenStream.readOperand]
    rw [operand_opening]
    exact .current (.bind_ok .advance (.weaken 1 (.within fun _ ↦ follows_parentheses ih)))
  case parenthesesDeep =>
    -- and so is a parenthesis
    intro n position rest hn
    refine .succ (fun _ ↦ rfl) ?_
    simp only [TokenStream.readOperand]
    rw [operand_opening]
    exact .current (.bind_ok .advance (.weaken 1 (.within fun hn' ↦ absurd hn' hn)))
  case other =>
    intro n ts hnumber htext hname hopening
    rw [operand]
    · exact follows_other hnumber htext hname hopening
    · exact hnumber
    · exact htext
    · exact hname
    · exact hopening

end

/-! ## The end of a reading

A stream made from words has them before its end mark, so from the start a reading follows the other
one on these words.  In any stream whatever, words are seen from each place on
(`TokenStream.exists_sees`), so that no condition on the stream is left in `reading_endsWell`. -/

section

variable {α : Type} {s : TokenStream} {stop finish raise n least : Nat} {ts : List Placed}
  {t : Trail} {run : Nat → Reading α} {parsed : Except ExpressionError (α × List Placed)}

/-- The words of a stream are seen from any of them on. -/
theorem TokenStream.sees_ofTokens (finish : Nat) (before after : List Placed) :
    (TokenStream.ofTokens finish (before ++ after)).Sees (before ++ after).length finish
      before.length after := by
  induction after generalizing before with
  | nil =>
    rw [List.append_nil]
    refine .mark ?_ ?_
    · rw [TokenStream.size, TokenStream.ofTokens, List.length_map]
      exact Nat.lt_succ_self _
    · rw [TokenStream.entry, TokenStream.ofTokens, List.getD_eq_getElem?_getD,
        List.getElem?_eq_none (Nat.le_of_eq (List.length_map _)), Option.getD_none]
  | cons w after ih =>
    have hsplit : before ++ w :: after = (before ++ [w]) ++ after := by rw [List.append_assoc]; rfl
    refine .word ?_ ?_
    · simp [TokenStream.entry, TokenStream.ofTokens]
    · have hlength : (before ++ [w]).length = before.length + 1 := List.length_append
      have hrest := ih (before ++ [w])
      rwa [← hsplit, hlength] at hrest

/-- **Both readings give the same tree** or the same fault. -/
theorem TokenStream.readAll_ofTokens (finish : Nat) (ts : List Placed) :
    ∃ t, Gives (TokenStream.ofTokens finish ts).readAll .start (exprOfTokens finish ts) t := by
  have hsees := TokenStream.sees_ofTokens finish [] ts
  have hstart : Trail.start.At (TokenStream.ofTokens finish ts) ts.length finish 0 ts :=
    ⟨⟨Nat.succ_pos _, Nat.zero_le _⟩, rfl, hsees⟩
  obtain ⟨r, t, hrun, -, -, hsame⟩ := (follows_conditional _ _ _).1 0 ts _ hstart
  rw [exprOfTokens]
  generalize conditional finish 0 ts = parsed at hsame ⊢
  cases hsame with
  | fault e => exact ⟨t, hrun.bind_fault⟩
  | @result e _ rest _ hsees =>
    have hcurrent : (TokenStream.ofTokens finish ts).current t =
        some (.ok (firstEntry finish rest), t) := by
      rw [← hsees.entry_eq]
      rfl
    refine ⟨t, hrun.bind_ok (.bind_ok (.of_forall fun _ ↦ hcurrent) (.of_forall fun _ ↦ ?_))⟩
    cases rest <;> rfl

example : ((TokenStream.ofTokens 5
    [⟨.name "a", 0⟩, ⟨.symbol .plus, 2⟩, ⟨.name "b", 4⟩]).readAll 30 .start).map (·.1) =
      some (.ok (.binary .add (.name "a") (.name "b"))) := by rfl

/-- **A reading ends well**: it comes to an answer, the cursor stands only within the stream on its
way, the depth after it is `raise` more than the one before it, whatever the answer is, and a result
takes at least one word. -/
def EndsWell (s : TokenStream) (raise : Nat) (run : Nat → Reading α) (t : Trail) : Prop :=
  ∃ r t', Gives run t r t' ∧ t.GoesOn s t' ∧ t'.now.nesting = t.now.nesting + raise ∧
    ∀ x, r = .ok x → t.now.index < t'.now.index

/-- What follows the other reading and takes a word ends well. -/
theorem Follows.endsWell (h : Follows s stop finish raise 1 n ts run parsed)
    (ht : t.At s stop finish n ts) : EndsWell s raise run t := by
  obtain ⟨r, t', hrun, hgoes, hnesting, hsame⟩ := h t ht
  refine ⟨r, t', hrun, hgoes, ht.nesting.symm ▸ hnesting, fun x hx ↦ ?_⟩
  cases hsame with
  | fault e => cases hx
  | result x hleast hsees =>
    have hbefore := ht.sees.add_length
    have hafter := hsees.add_length
    omega

/-- A run that comes to an end at all shows by how much the depth is raised. -/
theorem EndsWell.nesting_eq (h : EndsWell s raise run t) {calls nesting : Nat}
    (hrun : (run calls t).map (fun p ↦ p.2.now.nesting) = some nesting) :
    nesting = t.now.nesting + raise := by
  obtain ⟨r, t', hgives, -, hnesting, -⟩ := h
  cases hgives.only calls with
  | inl hnone =>
    rw [hnone] at hrun
    cases hrun
  | inr hsome =>
    rw [hsome] at hrun
    exact Option.some.inj hrun ▸ hnesting

/-- **Every function of the reading ends well**, from any place within any stream.  All of them set
the depth back, whether or not there is a fault, but for the two loops: along the operands of a
chain the depth is raised once for each operator that is passed over, along members once for each
point, and the functions that call the loops set it back. -/
theorem reading_endsWell (s : TokenStream) (t : Trail) (h : t.now.Within s) :
    EndsWell s 0 s.readConditional t ∧
    (∀ levels, EndsWell s 0 (s.readChain levels) t) ∧
    EndsWell s 0 s.readPrefixed t ∧
    EndsWell s 0 s.readPostfix t ∧
    EndsWell s 0 s.readOperand t ∧
    (∀ position, EndsWell s 0 (s.readMath position) t) ∧
    EndsWell s 0 s.readArguments t ∧
    (∀ position inside, EndsWell s 0 (s.readWithin position inside) t) ∧
    ∃ stop finish ts, s.Sees stop finish t.now.index ts ∧
      (∀ level levels,
        EndsWell s (raisedBy (chain finish levels t.now.nesting ts)
          (operatorsTaken finish level levels t.now.nesting)) (s.readOperands level levels) t) ∧
      EndsWell s (raisedBy (operand finish t.now.nesting ts) (membersTaken t.now.nesting))
        s.readMembers t := by
  obtain ⟨stop, finish, ts, hsees⟩ := s.exists_sees h.index
  -- from here the trail stands on its own level before the words that it sees
  have ht : t.At s stop finish t.now.nesting ts := ⟨h, rfl, hsees⟩
  obtain ⟨hconditional, hchain, hafter, hprefixed, hoperand⟩ := follows_conditional s stop finish
  refine ⟨(hconditional _ ts).endsWell ht, fun levels ↦ (hchain levels _ ts).endsWell ht,
    (hprefixed _ ts).endsWell ht, (follows_readPostfix (hoperand _ ts)).endsWell ht,
    (hoperand _ ts).endsWell ht, fun position ↦ ?_, ?_, fun position inside ↦ ?_,
    stop, finish, ts, hsees, fun level levels ↦ ?_, (follows_members (hoperand _ ts)).endsWell ht⟩
  · exact (follows_math position (fun _ ↦ hconditional _) ts).endsWell ht
  · exact (follows_arguments (hconditional _) ts).endsWell ht
  · -- whatever is inside follows something, on the next level
    obtain ⟨parsed, hinside⟩ : ∃ parsed, Follows s stop finish 0 1 (t.now.nesting + 1) ts
        (s.readInside inside) parsed := by
      cases inside with
      | branches condition => exact ⟨_, follows_branches condition (hconditional _) ts⟩
      | operand op => exact ⟨_, follows_applied op (hprefixed _ ts)⟩
      | parentheses => exact ⟨_, follows_parentheses (hconditional _ ts)⟩
      | arguments function => exact ⟨_, follows_call function (hconditional _) ts⟩
    exact (Follows.within fun _ ↦ hinside).endsWell ht
  · exact (follows_operands (hchain levels _ ts) (hafter level levels _)).endsWell ht

/-- At the limit, a sum is too deep; the depth is what it was. -/
theorem reading_endsWell_at_limit :
    let s : TokenStream := .ofTokens 5 [⟨.name "a", 0⟩, ⟨.symbol .plus, 2⟩, ⟨.name "b", 4⟩]
    let t : Trail := ⟨⟨0, maxNesting⟩, []⟩
    t.now.Within s ∧
      ∃ r t', Gives s.readConditional t r t' ∧ t.GoesOn s t' ∧ t'.now.nesting = maxNesting := by
  intro s t
  have hwithin : t.now.Within s := ⟨by decide, Nat.le_refl _⟩
  obtain ⟨r, t', hrun, hgoes, hnesting, -⟩ := (reading_endsWell s t hwithin).1
  exact ⟨hwithin, r, t', hrun, hgoes, hnesting⟩

/-- **The loops do not set the depth back**: on the level of sums, the operands of `a+b` leave it
raised by one, and so do the members of `a.b`. -/
theorem sum_and_members_leave_raised :
    let sum : TokenStream := .ofTokens 3 [⟨.name "a", 0⟩, ⟨.symbol .plus, 1⟩, ⟨.name "b", 2⟩]
    let members : TokenStream := .ofTokens 3 [⟨.name "a", 0⟩, ⟨.symbol .dot, 1⟩, ⟨.name "b", 2⟩]
    Trail.start.now.Within sum ∧ Trail.start.now.Within members ∧
      ¬EndsWell sum 0 (sum.readOperands precedence[4] (precedence.drop 5)) .start ∧
      ¬EndsWell members 0 members.readMembers .start := by
  intro sum members
  refine ⟨⟨Nat.succ_pos _, Nat.zero_le _⟩, ⟨Nat.succ_pos _, Nat.zero_le _⟩, fun h ↦ ?_, fun h ↦ ?_⟩
  · have hrun : ((sum.readOperands precedence[4] (precedence.drop 5) 10 .start).map
        fun p ↦ p.2.now.nesting) = some 1 := rfl
    exact absurd (h.nesting_eq hrun) Nat.one_ne_zero
  · have hrun : ((members.readMembers 10 .start).map fun p ↦ p.2.now.nesting) = some 1 := rfl
    exact absurd (h.nesting_eq hrun) Nat.one_ne_zero

end

end ReactiveForm
