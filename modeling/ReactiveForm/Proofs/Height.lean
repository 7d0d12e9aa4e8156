import Mathlib.Order.Bounds.Defs
import ReactiveForm.Proofs.Words

/-!
# How high the trees of expressions are

The limit of nesting counts the links of a chain, but what it counts is what nests behind them: when
a chain ends, its links are forgotten, and an operator that takes the whole chain as its left
operand starts to count anew.  So a phrase may have, around an operand, as many members as the limit
allows and as many links of each of the six chains, and the tree is not bounded by the limit.

It is bounded all the same.  `Phrase.height_le` goes over the grammar and adds up what each level
can contribute; `attained_greatestHeight` writes a text in which each contributes it all.  Together
they tell the greatest height of all expressions that are accepted (`isGreatest_height`), which is
that of the deepest recursion over one.  Only where all parts of an expression are in parentheses
each level is counted, and the tree is no higher than the limit says.
-/

set_option autoImplicit false
namespace ReactiveForm

/-! ## The bound

Seven chains can be inside one another around an operand: the members and the chains of the six
levels of operators.  Each has at most as many links as the limit allows, and each link is one level
of the tree.  A conditional adds one more.  Only a call has a phrase inside it that starts over,
with a limit that is one less: this is where the recursion comes from. -/

/-- **The greatest height of an expression** whose nesting is limited. -/
def greatestHeight : Nat → Nat
  | 0 => 1
  | limit + 1 => greatestHeight limit + 7 * limit + 9

/-- The greatest height of an operand: one that is no call adds no level to what is inside it. -/
def greatestOperandHeight : Nat → Nat
  | 0 => 1
  | limit + 1 => greatestHeight limit + 1

/-- The chains that the phrases of a level can have inside one another, its own not counted. -/
def Level.chainsInside : Level → Nat
  | .conditional => 7
  | .disjunction => 6
  | .conjunction => 5
  | .equality => 4
  | .relation => 3
  | .sum => 2
  | .product | .prefixed => 1
  | .members | .operand => 0

/-- The greatest height of a phrase without links. -/
def Level.greatestHeight (level : Level) (limit : Nat) : Nat :=
  greatestOperandHeight limit + level.chainsInside * limit +
    if level = .conditional then min 1 limit else 0

theorem greatestHeight_conditional (limit : Nat) :
    Level.conditional.greatestHeight limit = greatestHeight limit := by
  cases limit with
  | zero => rfl
  | succ limit =>
    simp only [Level.greatestHeight, greatestOperandHeight, Level.chainsInside, greatestHeight,
      if_true]
    omega

theorem Level.greatestHeight_of_ne {level : Level} (h : level ≠ .conditional) (limit : Nat) :
    level.greatestHeight limit = greatestOperandHeight limit + level.chainsInside * limit := by
  rw [greatestHeight, if_neg h, Nat.add_zero]

theorem Level.greatestHeight_operand (limit : Nat) :
    Level.operand.greatestHeight limit = greatestOperandHeight limit := by
  rw [greatestHeight_of_ne (by decide), chainsInside, Nat.zero_mul, Nat.add_zero]

/-- A larger limit allows higher trees. -/
theorem greatestHeight_mono {limit limit' : Nat} (h : limit ≤ limit') :
    greatestHeight limit ≤ greatestHeight limit' := by
  induction h with
  | refl => exact Nat.le_refl _
  | step _ ih => rw [greatestHeight]; omega

theorem greatestOperandHeight_mono {limit limit' : Nat} (h : limit ≤ limit') :
    greatestOperandHeight limit ≤ greatestOperandHeight limit' := by
  cases limit' with
  | zero => exact Nat.le_of_eq (by rw [Nat.le_zero.1 h])
  | succ limit' =>
    cases limit with
    | zero => exact Nat.le_add_left _ _
    | succ limit => exact Nat.succ_le_succ (greatestHeight_mono (Nat.le_of_succ_le_succ h))

theorem Level.greatestHeight_mono (level : Level) {limit limit' : Nat} (h : limit ≤ limit') :
    level.greatestHeight limit ≤ level.greatestHeight limit' := by
  have hoperand := greatestOperandHeight_mono h
  have hchains := Nat.mul_le_mul_left level.chainsInside h
  rw [Level.greatestHeight, Level.greatestHeight]
  split <;> omega

/-- A chain of a level adds its links to the height, at most as many as the phrase nests. -/
theorem Level.greatestHeight_tighter {level next : Level} {links limit : Nat}
    (hnext : level.tighter? = some next) (hlinks : links ≤ limit)
    (hzero : next.hasLinks = false → links = 0) :
    next.greatestHeight limit + links ≤ level.greatestHeight limit := by
  cases level <;> cases hnext <;>
    simp [Level.greatestHeight, Level.chainsInside, Level.hasLinks] at hzero ⊢ <;> omega

section

variable {level : Level} {links depth : Nat} {ts : List Token} {e : Expr}

/-- **A phrase is as high as its levels allow**, and its links. -/
theorem Phrase.height_le (h : Phrase level links depth ts e) :
    e.height ≤ level.greatestHeight depth + links := by
  induction h with
  | tighter hnext h ih =>
    exact Nat.le_trans ih (Level.greatestHeight_tighter hnext h.links_le_depth h.links_eq_zero)
  | @choice links depth depth₁ depth₂ _ _ _ c y n hcondition _ _ ihcondition ihyes ihno =>
    -- the branches nest one level deeper than the conditional, so their limit is one less
    have hlinks := hcondition.links_le_depth
    have hfirst := greatestOperandHeight_mono (Nat.le_max_left depth (max depth₁ depth₂ + 1))
    have hyes := greatestOperandHeight_mono
      (show depth₁ + 1 ≤ max depth (max depth₁ depth₂ + 1) by omega)
    have hno := greatestOperandHeight_mono
      (show depth₂ + 1 ≤ max depth (max depth₁ depth₂ + 1) by omega)
    rw [Level.greatestHeight_of_ne (by decide), Level.chainsInside] at ihcondition
    rw [greatestHeight_conditional] at ihyes ihno
    rw [greatestOperandHeight] at hyes hno
    rw [Level.greatestHeight, if_pos rfl, Level.chainsInside, Expr.height]
    omega
  | @link level next links links' depth depth' _ _ l r op hlevel hnext _ hright ihleft ihright =>
    -- the left operand is higher by the link, the right one nests behind all links so far
    have hleft := level.greatestHeight_mono (Nat.le_max_left depth (links + 1 + depth'))
    have hright := Nat.le_trans
      (Level.greatestHeight_tighter hnext hright.links_le_depth hright.links_eq_zero)
      (level.greatestHeight_mono (show depth' ≤ max depth (links + 1 + depth') by omega))
    rw [height_join]
    omega
  | @unary links depth _ e op h ih =>
    obtain rfl := h.links_eq_zero rfl
    have hoperand := greatestOperandHeight_mono (Nat.le_add_right depth 1)
    rw [Level.greatestHeight_of_ne (by decide), Level.chainsInside] at ih ⊢
    rw [Expr.height]
    omega
  | @member links depth _ e property h ih =>
    have hobject := Level.members.greatestHeight_mono (Nat.le_max_left depth (links + 1))
    rw [Expr.height]
    omega
  | call f arguments _ ih =>
    -- the arguments start over, on the next level
    rw [Expr.height, Nat.add_comm 1, Level.greatestHeight_operand]
    refine Nat.succ_le_succ (maxHeight_le fun a ha ↦ ?_)
    have harguments := ih a ha
    rw [greatestHeight_conditional] at harguments
    exact Nat.le_trans harguments (greatestHeight_mono (depth_le_foldr ha))
  | parentheses _ ih =>
    rw [greatestHeight_conditional] at ih
    rw [Level.greatestHeight_operand]
    exact Nat.le_succ_of_le ih
  | _ => simp [Expr.height, Level.greatestHeight, greatestOperandHeight]

end

/-! ## The bound is attained

The text is written from the inside outwards.  Around a call come as many members as the limit
allows, then the links of each chain in turn, and at last a conditional; `Attained` has a lemma for
each of these steps.  It keeps count of the bytes as well, for the text has to be short enough to be
read at all. -/

/-- The size of some characters in bytes. -/
def bytesOf (cs : List Char) : Nat := (String.ofList cs).utf8ByteSize

theorem bytesOf_append (cs cs' : List Char) : bytesOf (cs ++ cs') = bytesOf cs + bytesOf cs' := by
  rw [bytesOf, String.ofList_append, String.utf8ByteSize_append]
  rfl

/-- **Some characters spell some tokens**, whatever comes behind them. -/
def Spells (cs : List Char) (ts : List Token) : Prop :=
  ∀ rest ps, Cut rest ps → ∃ ps', Cut (cs ++ rest) (ps' ++ ps) ∧ tokensOf ps' = ts

namespace Spells

variable {cs cs' : List Char} {ts ts' : List Token}

theorem append (h : Spells cs ts) (h' : Spells cs' ts') : Spells (cs ++ cs') (ts ++ ts') := by
  intro rest ps hrest
  obtain ⟨ps₂, hcut₂, rfl⟩ := h' rest ps hrest
  obtain ⟨ps₁, hcut₁, rfl⟩ := h (cs' ++ rest) (ps₂ ++ ps) hcut₂
  refine ⟨ps₁ ++ ps₂, ?_, tokensOf_append ps₁ ps₂⟩
  rwa [List.append_assoc, List.append_assoc]

/-- What spells some tokens is a text that is cut into them. -/
theorem exists_cut (h : Spells cs ts) : ∃ ps, Cut cs ps ∧ tokensOf ps = ts := by
  obtain ⟨ps, hcut, htokens⟩ := h [] [] .nil
  rw [List.append_nil, List.append_nil] at hcut
  exact ⟨ps, hcut, htokens⟩

theorem name : Spells ['a', ' '] [.name "a"] := fun _ _ h ↦
  ⟨[.word (.name "a"), .separator], @Cut.word 0 'a' _ _ _ _ _ rfl rfl (.separator rfl h), rfl⟩

theorem closing : Spells [')', ' '] [.symbol .closing] := fun _ _ h ↦
  ⟨[.word (.symbol .closing), .separator],
    @Cut.word 0 ')' _ _ _ _ _ rfl rfl (.separator rfl h), rfl⟩

/-- The call of a function up to its arguments. -/
theorem opening : Spells ['M', 'a', 't', 'h', '.', 'a', 'b', 's', '(', ' ']
    (mathMember "abs" ++ [.symbol .opening]) := by
  intro rest ps h
  have hopening : Cut ('(' :: ' ' :: rest) (.word (.symbol .opening) :: .separator :: ps) :=
    @Cut.word 0 '(' _ _ _ _ _ rfl rfl (.separator rfl h)
  have habs : Cut ('a' :: 'b' :: 's' :: '(' :: ' ' :: rest) (.word (.name "abs") :: _) :=
    @Cut.word 0 'a' _ _ _ _ _ rfl rfl hopening
  have hdot : Cut ('.' :: 'a' :: 'b' :: 's' :: '(' :: ' ' :: rest) (.word (.symbol .dot) :: _) :=
    @Cut.word 0 '.' _ _ _ _ _ rfl rfl habs
  exact ⟨[.word (.name "Math"), .word (.symbol .dot), .word (.name "abs"), .word (.symbol .opening),
    .separator], @Cut.word 0 'M' _ _ _ _ _ rfl rfl hdot, rfl⟩

/-- A symbol with a name behind it, which is what a link needs. -/
theorem symbol (s : Symbol) : Spells (s.text.toList ++ ['a', ' ']) [.symbol s, .name "a"] := by
  intro rest ps h
  have hname : Cut ('a' :: ' ' :: rest) (.word (.name "a") :: .separator :: ps) :=
    @Cut.word 0 'a' _ _ _ _ _ rfl rfl (.separator rfl h)
  refine ⟨[.word (.symbol s), .word (.name "a"), .separator], ?_, rfl⟩
  cases s <;> exact @Cut.word 0 _ _ _ _ _ _ rfl rfl hname

end Spells

/-- A name is a phrase of every level and nests nothing. -/
theorem Phrase.plainName (level : Level) : ∃ links, Phrase level links 0 [.name "a"] (.name "a") :=
  (Phrase.name (fun _ h ↦ by simp [← namedLiteral?_eq_some_iff, namedLiteral?] at h)
    (by decide)).loosen level.rank_le

/-- **A height is attained** by a phrase that is written in some number of bytes. -/
def Attained (level : Level) (links depth bytes height : Nat) : Prop :=
  ∃ cs ts e, Spells cs ts ∧ Phrase level links depth ts e ∧ bytesOf cs = bytes ∧ e.height = height

namespace Attained

variable {level next : Level} {links depth bytes height : Nat}

/-- To begin with there is a name. -/
theorem name : Attained .conditional 0 0 2 1 := by
  obtain ⟨links, h⟩ := Phrase.plainName .conditional
  obtain rfl := h.links_eq_zero rfl
  exact ⟨_, _, _, .name, h, by decide, by rw [Expr.height]⟩

/-- A phrase is one of each looser level too, without links there. -/
theorem tighter (hnext : level.tighter? = some next) (h : Attained next links depth bytes height) :
    Attained level 0 depth bytes height := by
  obtain ⟨cs, ts, e, hcs, hphrase, hbytes, hheight⟩ := h
  exact ⟨cs, ts, e, hcs, .tighter hnext hphrase, hbytes, hheight⟩

/-- Each link makes the tree higher that it is put behind. -/
theorem link (op : ChainOp) (hlinks : links < depth) (hpos : 0 < height)
    (h : Attained op.level links depth bytes height) :
    Attained op.level (links + 1) depth (bytes + bytesOf (op.symbol.text.toList ++ ['a', ' ']))
      (height + 1) := by
  obtain ⟨cs, ts, e, hcs, hphrase, hbytes, hheight⟩ := h
  obtain ⟨next, hnext⟩ := op.exists_tighter_level
  obtain ⟨links', hname⟩ := Phrase.plainName next
  have hlink := Phrase.link op rfl hnext hphrase hname
  rw [Nat.max_eq_left (by omega)] at hlink
  refine ⟨_, _, _, hcs.append (.symbol op.symbol), hlink, by rw [bytesOf_append, hbytes], ?_⟩
  rw [height_join, Expr.height, hheight]
  omega

/-- So does each member. -/
theorem member (hlinks : links < depth) (h : Attained .members links depth bytes height) :
    Attained .members (links + 1) depth (bytes + 3) (height + 1) := by
  obtain ⟨cs, ts, e, hcs, hphrase, hbytes, hheight⟩ := h
  have hmember := Phrase.member "a" hphrase
  rw [Nat.max_eq_left (by omega)] at hmember
  refine ⟨_, _, _, hcs.append (.symbol .dot), hmember, ?_, ?_⟩
  · rw [bytesOf_append, hbytes]
    rfl
  · rw [Expr.height, hheight, Nat.add_comm]

/-- A chain can have as many links as its phrase nests. -/
theorem allLinks {size : Nat} (hpos : 0 < height)
    (hstep : ∀ {links bytes height}, links < depth → 0 < height →
      Attained level links depth bytes height →
        Attained level (links + 1) depth (bytes + size) (height + 1))
    (h : Attained level 0 depth bytes height) :
    Attained level depth depth (bytes + size * depth) (height + depth) := by
  have hall : ∀ n ≤ depth, Attained level n depth (bytes + size * n) (height + n) := by
    intro n hn
    induction n with
    | zero => exact h
    | succ n ih =>
      rw [Nat.mul_succ, ← Nat.add_assoc, ← Nat.add_assoc]
      exact hstep hn (Nat.lt_of_lt_of_le hpos (Nat.le_add_right _ _)) (ih (Nat.le_of_succ_le hn))
  exact hall depth (Nat.le_refl depth)

/-- Around a phrase of the next tighter level, a chain of an operator can be put. -/
theorem chain (op : ChainOp) (hnext : op.level.tighter? = some next) (hpos : 0 < height)
    (h : Attained next links depth bytes height) :
    Attained op.level depth depth
      (bytes + bytesOf (op.symbol.text.toList ++ ['a', ' ']) * depth) (height + depth) :=
  (h.tighter hnext).allLinks hpos (.link op)

/-- A call takes a phrase of any kind inside and is an operand, on a level more. -/
theorem call (h : Attained .conditional 0 depth bytes height) :
    Attained .operand 0 (depth + 1) (bytes + 12) (height + 1) := by
  obtain ⟨cs, ts, e, hcs, hphrase, hbytes, hheight⟩ := h
  have hcall := Phrase.call .abs [⟨depth, ts, e⟩] (List.forall_mem_singleton.2 hphrase)
  simp only [List.map_cons, List.map_nil, List.foldr_cons, List.foldr_nil, Nat.max_zero] at hcall
  have htokens : mathMember "abs" ++ [.symbol .opening] ++ (ts ++ [.symbol .closing]) =
      mathMember MathFunction.abs.name ++ .symbol .opening ::
        (separated [ts] ++ [.symbol .closing]) := by
    rw [separated_singleton, List.append_assoc]
    rfl
  refine ⟨_, _, .call .abs [e], Spells.opening.append (hcs.append .closing), ?_, ?_, ?_⟩
  · rw [htokens]
    exact hcall
  · rw [bytesOf_append, bytesOf_append, hbytes]
    change 10 + (bytes + 2) = bytes + 12
    omega
  · rw [Expr.height, Expr.maxHeight, Expr.maxHeight, hheight]
    omega

/-- A conditional around a disjunction adds one to its height, whatever the branches are. -/
theorem choice (hdepth : 0 < depth) (hpos : 0 < height)
    (h : Attained .disjunction links depth bytes height) :
    Attained .conditional 0 depth (bytes + 6) (height + 1) := by
  obtain ⟨cs, ts, e, hcs, hphrase, hbytes, hheight⟩ := h
  obtain ⟨links', hname⟩ := Phrase.plainName .conditional
  obtain rfl := hname.links_eq_zero rfl
  have hchoice := Phrase.choice hphrase hname hname
  rw [Nat.max_eq_left (by omega)] at hchoice
  refine ⟨_, _, _, hcs.append ((Spells.symbol .question).append (.symbol .colon)), hchoice, ?_, ?_⟩
  · rw [bytesOf_append, hbytes]
    rfl
  · rw [Expr.height, Expr.height, hheight]
    omega

end Attained

/-- How long the text of a highest tree is. -/
def highestBytes : Nat → Nat
  | 0 => 2
  | limit + 1 => highestBytes limit + 24 * limit + 42

theorem greatestHeight_pos (limit : Nat) : 0 < greatestHeight limit :=
  greatestHeight_mono limit.zero_le

/-- **The bound is attained**: in a call, with as many members, links of each chain and a
conditional around it as the limit allows. -/
theorem attained_greatestHeight (limit : Nat) :
    Attained .conditional 0 limit (highestBytes limit) (greatestHeight limit) := by
  induction limit with
  | zero => exact .name
  | succ limit ih =>
    have hpos := greatestHeight_pos limit
    have hobject : Attained .members 0 (limit + 1) _ _ := ih.call.tighter rfl
    have hmembers := hobject.allLinks (Nat.succ_pos _) fun hlinks _ ↦ .member hlinks
    have hprefixed : Attained .prefixed 0 (limit + 1) _ _ := hmembers.tighter rfl
    have hproduct := hprefixed.chain (.binary .mul) rfl (by omega)
    have hsum := hproduct.chain (.binary .add) rfl (by omega)
    have hrelation := hsum.chain (.binary .less) rfl (by omega)
    have hequality := hrelation.chain (.binary .equal) rfl (by omega)
    have hconjunction := hequality.chain (.logical .and) rfl (by omega)
    have hdisjunction := hconjunction.chain (.logical .or) rfl (by omega)
    have hchoice := Attained.choice (Nat.succ_pos _) (by omega) hdisjunction
    have hbytes : highestBytes (limit + 1) = highestBytes limit + 12 + 3 * (limit + 1) +
        3 * (limit + 1) + 3 * (limit + 1) + 3 * (limit + 1) + 4 * (limit + 1) + 4 * (limit + 1) +
        4 * (limit + 1) + 6 := by
      rw [highestBytes]
      omega
    have hheight : greatestHeight (limit + 1) = greatestHeight limit + 1 + (limit + 1) +
        (limit + 1) + (limit + 1) + (limit + 1) + (limit + 1) + (limit + 1) + (limit + 1) + 1 := by
      rw [greatestHeight]
      omega
    rw [hbytes, hheight]
    exact hchoice

section

variable {source : String} {e : Expr}

/-- What is accepted is within the bound, whatever stands in parentheses. -/
theorem height_le_of_exprOfText (h : exprOfText source = .ok e) :
    e.height ≤ greatestHeight maxNesting := by
  obtain ⟨-, ps, -, depth, hdepth, hphrase⟩ := exprOfText_eq_ok_iff.1 h
  have hbound := hphrase.height_le
  rw [greatestHeight_conditional] at hbound
  exact Nat.le_trans hbound (greatestHeight_mono hdepth)

/-- **The height of an expression that is accepted** is within the bound.  If it is accepted with
all its parts in parentheses too, its height is within the limit of nesting. -/
theorem height_of_exprOfText (h : exprOfText source = .ok e) :
    e.height ≤ greatestHeight maxNesting ∧
      ∀ finish written, written.map (·.token) = e.parenthesized →
        exprOfTokens finish written = .ok e → e.height ≤ maxNesting + 1 := by
  refine ⟨height_le_of_exprOfText h, fun finish written hwritten hread ↦ ?_⟩
  obtain ⟨-, ps, -, depth, -, hphrase⟩ := exprOfText_eq_ok_iff.1 h
  obtain ⟨nesting, hcounted, hheight⟩ := Derives.counted ⟨depth, hphrase⟩
  have hwithin := (hcounted.comesTo_exprOfTokens hwritten).of_ok hread
  exact Nat.le_trans hheight (Nat.succ_le_succ hwithin)

/-- Written as `((a).b)+(a)`, the sum of a member and a name counts all its levels. -/
theorem height_of_exprOfText_sum :
    exprOfText "a.b+a" = .ok (.binary .add (.member (.name "a") "b") (.name "a")) ∧
      (Expr.binary .add (.member (.name "a") "b") (.name "a")).height ≤ maxNesting + 1 := by
  have htokens : tokens "a.b+a".toList =
      .ok ([⟨.name "a", 0⟩, ⟨.symbol .dot, 1⟩, ⟨.name "b", 2⟩, ⟨.symbol .plus, 3⟩, ⟨.name "a", 4⟩],
        5) := by decide +kernel
  have hread : exprOfText "a.b+a" = .ok (.binary .add (.member (.name "a") "b") (.name "a")) := by
    rw [exprOfText, htokens]
    with_unfolding_all rfl
  refine ⟨hread, (height_of_exprOfText hread).2 0
    ((Expr.binary .add (.member (.name "a") "b") (.name "a")).parenthesized.map (⟨·, 0⟩)) ?_ ?_⟩
  · with_unfolding_all rfl
  · with_unfolding_all rfl

/-- A chain of members that is as long as the limit allows can be the operand of a sum. -/
theorem height_member_chain_sum :
    (exprOfText ("a" ++ String.join (List.replicate 64 ".b") ++ "+a")).map Expr.height =
      .ok (maxNesting + 2) := by
  have hsource : ("a" ++ String.join (List.replicate 64 ".b") ++ "+a").toList =
      'a' :: (List.replicate 64 ['.', 'b']).flatten ++ ['+', 'a'] := by
    rw [String.toList_append, String.toList_append, String.toList_join]
    rfl
  rw [exprOfText, hsource]
  decide +kernel

end

/-- **The greatest height of all expressions that are accepted.** -/
theorem isGreatest_height :
    IsGreatest {height | ∃ source e, exprOfText source = .ok e ∧ e.height = height}
      (greatestHeight maxNesting) := by
  constructor
  · obtain ⟨cs, ts, e, hcs, hphrase, hbytes, hheight⟩ := attained_greatestHeight maxNesting
    obtain ⟨ps, hcut, rfl⟩ := hcs.exists_cut
    refine ⟨String.ofList cs, e,
      exprOfText_eq_ok_iff.2 ⟨?_, ps, ?_, _, Nat.le_refl _, hphrase⟩, hheight⟩
    · change bytesOf cs ≤ _
      rw [hbytes]
      decide
    · rwa [String.toList_ofList]
  · rintro height ⟨source, e, h, rfl⟩
    exact height_le_of_exprOfText h

example : greatestHeight maxNesting = 14689 := by decide

end ReactiveForm
