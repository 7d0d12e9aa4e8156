import Mathlib.Data.List.Chain
import ReactiveForm.Expression.Compute
import ReactiveForm.Proofs.Skimming
import ReactiveForm.Proofs.Table

/-!
# Inferred dependencies

What a computation depends on can be inferred from the text of its expression.  The inference parses
nothing, so there is something to prove: that on the text of an expression it finds the names which
the tree reads.

From the grammar come two facts about the words of an expression.  The names that its tree reads are
those that stand behind no point (`Phrase.freeNames_eq`), and of two neighbouring words one is a
symbol (`Phrase.alternates`), so that a name never comes right behind a number or another name.
With the second the mode in which the inference comes to a name is known from what stands before it
(`modeAfter_eq_plain_iff`): it takes the name if no point comes last, but also if that point has
been part of a run and a separator has ended the run.  A name behind such a point *strays*, for it
is a member of the number (`Strays`).

So the inference finds the names that are read, those apart that are never fields, and finds nothing
else exactly if no other name strays (`inferredReads_of_exprOfText`).  As it misses none, no name is
unbound but one that is never a field.
-/

set_option autoImplicit false
namespace ReactiveForm

/-! ## The names that are read, word by word

Of the words of an expression the tree keeps the names that are no members, in their order.  Whether
a name is a member can be seen from the word before it, so the names of a tree can be read off its
words. -/

/-- Whether a token is a symbol. -/
def Token.isSymbol : Token → Bool
  | .symbol _ => true
  | _ => false

/-- The names among some that can be fields. -/
def unreserved (names : List String) : List String :=
  names.filter fun s ↦ !reservedNames.contains s

theorem mem_unreserved {names : List String} {n : String} :
    n ∈ unreserved names ↔ n ∈ names ∧ n ∉ reservedNames := by
  simp [unreserved]

/-- Whether a token is a point. -/
def Token.isDot : Token → Bool
  | .symbol .dot => true
  | _ => false

theorem Token.eq_of_isDot {t : Token} (h : t.isDot = true) : t = .symbol .dot := by
  unfold isDot at h
  split at h
  · rfl
  · cases h

/-- The name that is read at a token, if it can be a field; `afterDot` says whether a point comes
before the token. -/
def Token.freeName (afterDot : Bool) : Token → List String
  | .name s => if afterDot then [] else unreserved [s]
  | _ => []

/-- **The names that are read** among some tokens. -/
def freeNames (afterDot : Bool) : List Token → List String
  | [] => []
  | t :: ts => t.freeName afterDot ++ freeNames t.isDot ts

section

variable {level : Level} {links depth : Nat} {ts : List Token} {e : Expr}

theorem freeNames_symbol {s : Symbol} (hs : s ≠ .dot) (b : Bool) (ts : List Token) :
    freeNames b (.symbol s :: ts) = freeNames false ts := by
  cases s <;> first | exact absurd rfl hs | rfl

theorem freeNames_name (s : String) (ts : List Token) :
    freeNames false (.name s :: ts) = unreserved [s] ++ freeNames false ts := rfl

theorem freeNames_member (b : Bool) (s : String) (ts : List Token) :
    freeNames b (.symbol .dot :: .name s :: ts) = freeNames false ts := rfl

theorem Keyword.reserved {s : String} {l : Literal} (h : Keyword s l) : unreserved [s] = [] := by
  cases h <;> decide

theorem unreserved_append (names others : List String) :
    unreserved (names ++ others) = unreserved names ++ unreserved others :=
  List.filter_append ..

/-- The names of arguments, one after the other. -/
theorem freeNames_separated {arguments : List Argument}
    (h : ∀ a ∈ arguments, ∀ rest,
      freeNames false (a.tokens ++ rest) = unreserved a.tree.names ++ freeNames false rest)
    (rest : List Token) :
    freeNames false (separated (arguments.map (·.tokens)) ++ rest) =
      unreserved (Expr.allNames (arguments.map (·.tree))) ++ freeNames false rest := by
  induction arguments generalizing rest with
  | nil => rfl
  | cons a arguments ih =>
    obtain ⟨ha, hothers⟩ := List.forall_mem_cons.1 h
    rw [List.map_cons, List.map_cons, Expr.allNames, unreserved_append, List.append_assoc,
      ← ih hothers, ← ha]
    by_cases harguments : arguments = []
    · rw [harguments, List.map_nil, separated_singleton]
      rfl
    · rw [separated_cons (by simpa using harguments), List.append_assoc, ha, ha, List.cons_append,
        freeNames_symbol (by decide)]

/-- The names that a phrase reads are those that its tree reads. -/
theorem Phrase.freeNames_append (h : Phrase level links depth ts e) (rest : List Token) :
    freeNames false (ts ++ rest) = unreserved e.names ++ freeNames false rest := by
  induction h generalizing rest with
  | tighter _ _ ih => exact ih rest
  | choice _ _ _ ihcondition ihyes ihno =>
    simp only [List.append_assoc, List.cons_append]
    rw [ihcondition, freeNames_symbol (by decide), ihyes, freeNames_symbol (by decide), ihno,
      Expr.names, unreserved_append, unreserved_append]
    simp only [List.append_assoc]
  | @link _ _ _ _ _ _ _ _ l r op _ _ _ _ ihleft ihright =>
    have hsymbol : op.symbol ≠ .dot := by
      rcases op with op | op <;> cases op <;> decide
    have hnames : (op.join l r).names = l.names ++ r.names := by
      cases op <;> rw [ChainOp.join, Expr.names]
    rw [List.append_assoc, List.cons_append, ihleft, freeNames_symbol hsymbol, ihright, hnames,
      unreserved_append, List.append_assoc]
  | unary op _ ih =>
    have hsymbol : op.symbol ≠ .dot := by cases op <;> decide
    rw [List.cons_append, freeNames_symbol hsymbol, ih, Expr.names]
  | member property _ ih =>
    rw [List.append_assoc, ih, Expr.names]
    exact congrArg _ (freeNames_member false property rest)
  | number => rw [Expr.names]; rfl
  | text => rw [Expr.names]; rfl
  | keyword h =>
    rw [List.singleton_append, freeNames_name, h.reserved, Expr.names]
    rfl
  | name => rw [List.singleton_append, freeNames_name, Expr.names]
  | constant => rw [Expr.names]; rfl
  | call f arguments _ ih =>
    have hmember (ts : List Token) :
        freeNames false (mathMember f.name ++ ts) = freeNames false ts := by
      rw [mathMember, List.cons_append, freeNames_name, show unreserved ["Math"] = [] by decide]
      exact freeNames_member false f.name ts
    rw [List.append_assoc, hmember, List.cons_append, freeNames_symbol (by decide),
      List.append_assoc, freeNames_separated ih, List.singleton_append,
      freeNames_symbol (by decide), Expr.names]
  | parentheses _ ih =>
    rw [List.cons_append, freeNames_symbol (by decide), List.append_assoc, ih,
      List.singleton_append, freeNames_symbol (by decide)]

/-- **The names that the words of an expression have are those of its tree.** -/
theorem Phrase.freeNames_eq (h : Phrase level links depth ts e) :
    freeNames false ts = unreserved e.names := by
  have hnames := h.freeNames_append []
  rwa [List.append_nil, freeNames, List.append_nil] at hnames

/-! ## Neighbouring words

In a phrase two operands never stand side by side.  The inference relies on it: behind a number it
would skip a name that comes next. -/

/-- Of two neighbouring words, one is a symbol. -/
def Alternates (ts : List Token) : Prop :=
  ts.IsChain fun t t' ↦ t.isSymbol = true ∨ t'.isSymbol = true

theorem Alternates.cons {s : Symbol} (h : Alternates ts) : Alternates (.symbol s :: ts) :=
  List.IsChain.cons h fun _ _ ↦ .inl rfl

/-- A symbol keeps apart what stands on both sides of it. -/
theorem Alternates.glue {ls rs : List Token} {s : Symbol} (hl : Alternates ls)
    (hr : Alternates rs) : Alternates (ls ++ .symbol s :: rs) :=
  List.IsChain.append hl hr.cons fun _ _ _ ht ↦ .inr (Option.some.inj ht ▸ rfl)

theorem alternates_mathMember (s : String) : Alternates (mathMember s) :=
  Alternates.glue (.singleton _) (.singleton _)

theorem alternates_separated {arguments : List Argument}
    (h : ∀ a ∈ arguments, Alternates a.tokens) :
    Alternates (separated (arguments.map (·.tokens))) := by
  induction arguments with
  | nil => exact .nil
  | cons a arguments ih =>
    obtain ⟨ha, hothers⟩ := List.forall_mem_cons.1 h
    by_cases harguments : arguments = []
    · rw [harguments, List.map_singleton, separated_singleton]
      exact ha
    · rw [List.map_cons, separated_cons (by simpa using harguments)]
      exact ha.glue (ih hothers)

/-- **Of two neighbouring words of a phrase, one is a symbol.** -/
theorem Phrase.alternates (h : Phrase level links depth ts e) : Alternates ts := by
  induction h with
  | tighter _ _ ih => exact ih
  | choice _ _ _ ihcondition ihyes ihno => exact ihcondition.glue (ihyes.glue ihno)
  | link _ _ _ _ _ ihleft ihright => exact ihleft.glue ihright
  | unary _ _ ih => exact ih.cons
  | member property _ ih => exact ih.glue (.singleton _)
  | constant => exact alternates_mathMember _
  | call f arguments _ ih =>
    exact (alternates_mathMember _).glue ((alternates_separated ih).glue .nil)
  | parentheses _ ih => exact (ih.glue .nil).cons
  | _ => exact .singleton _

end

/-! ## Names that are taken by mistake

The mode of the inference says too little of what stands before a name.  In the plain mode a point
may have come last all the same, if it was part of a run that a separator has ended; this is the one
case in which a member is taken for a field. -/

/-- The mode of the inference behind some pieces. -/
def modeAfter (ps : List Piece) : Mode := ps.foldl Mode.step .plain

/-- Whether a point comes last behind a piece, separators apart, given whether it does before. -/
def Piece.endsInDot (before : Bool) : Piece → Bool
  | .separator => before
  | .word t => t.isDot

/-- Whether a point comes last among some pieces, separators apart. -/
def endsInDot (ps : List Piece) : Bool := ps.foldl Piece.endsInDot false

/-- Whether a piece is part of a run: a name or a point. -/
def Piece.continuesRun : Piece → Bool
  | .word (.name _) | .word (.symbol .dot) => true
  | _ => false

/-- **Some pieces end in a run**: in a number, and names and points attached to it. -/
def EndsInRun (ps : List Piece) : Prop :=
  ∃ before x chain, ps = before ++ .word (.number x) :: chain ∧
    ∀ p ∈ chain, p.continuesRun = true

/-- **A name strays** among some pieces if it is a member, but the point before it is attached to a
number, perhaps with other members between them, and separated from the name. -/
def Strays (n : String) (ps : List Piece) : Prop :=
  ∃ before gap after, ps = before ++ .word (.symbol .dot) :: (gap ++ .word (.name n) :: after) ∧
    EndsInRun before ∧ gap ≠ [] ∧ ∀ p ∈ gap, p = .separator

section

variable {ps before after gap : List Piece} {n : String}

/-- Where a piece stands among others: in front, or behind the first of them. -/
theorem exists_split_cons {p q : Piece} {P : List Piece → Prop} :
    (∃ before after, p :: ps = before ++ q :: after ∧ P before) ↔
      p = q ∧ P [] ∨ ∃ before after, ps = before ++ q :: after ∧ P (p :: before) := by
  constructor
  · rintro ⟨before, after, heq, hP⟩
    cases before with
    | nil => exact .inl ⟨(List.cons.inj heq).1, hP⟩
    | cons p' before =>
      obtain ⟨rfl, rfl⟩ := List.cons.inj heq
      exact .inr ⟨before, after, rfl, hP⟩
  · rintro (⟨rfl, hP⟩ | ⟨before, after, rfl, hP⟩)
    · exact ⟨[], ps, rfl, hP⟩
    · exact ⟨p :: before, after, rfl, hP⟩

/-- A name is taken where it stands, in the plain mode. -/
theorem mem_taken_iff {mode : Mode} {p : Piece} :
    n ∈ mode.taken p ↔ n ∉ reservedNames ∧ p = .word (.name n) ∧ mode = .plain := by
  unfold Mode.taken
  split
  · rename_i s
    by_cases hs : s ∈ reservedNames
    · simp only [List.contains_iff_mem, hs, if_true, List.not_mem_nil, false_iff]
      rintro ⟨hn, heq, -⟩
      cases heq
      exact hn hs
    · simp only [List.contains_iff_mem, hs, if_false, List.mem_singleton]
      constructor
      · rintro rfl
        exact ⟨hs, rfl, trivial⟩
      · rintro ⟨-, heq, -⟩
        cases heq
        rfl
  · rename_i hother
    simp only [List.not_mem_nil, false_iff]
    rintro ⟨-, rfl, rfl⟩
    exact hother n rfl rfl

theorem mem_freeName_iff {b : Bool} {t : Token} :
    n ∈ t.freeName b ↔ n ∉ reservedNames ∧ t = .name n ∧ b = false := by
  cases t with
  | name s =>
    cases b with
    | true => simp [Token.freeName]
    | false =>
      rw [Token.freeName, if_neg (by decide), mem_unreserved, List.mem_singleton]
      constructor
      · rintro ⟨rfl, hn⟩
        exact ⟨hn, rfl, rfl⟩
      · rintro ⟨hn, heq, -⟩
        cases heq
        exact ⟨rfl, hn⟩
  | _ => simp [Token.freeName]

/-- The inference takes a name that can be a field if it comes to it in the plain mode. -/
theorem mem_seen_iff {mode : Mode} : n ∈ seen mode ps ↔ n ∉ reservedNames ∧
    ∃ before after, ps = before ++ .word (.name n) :: after ∧
      before.foldl Mode.step mode = .plain := by
  induction ps generalizing mode with
  | nil => simp [seen]
  | cons p ps ih =>
    rw [seen, List.mem_append, ih, exists_split_cons, mem_taken_iff, ← and_or_left]
    rfl

/-- A name is read if no point comes last before it. -/
theorem mem_freeNames_iff {b : Bool} : n ∈ freeNames b (tokensOf ps) ↔ n ∉ reservedNames ∧
    ∃ before after, ps = before ++ .word (.name n) :: after ∧
      before.foldl Piece.endsInDot b = false := by
  induction ps generalizing b with
  | nil => simp [tokensOf, freeNames]
  | cons p ps ih =>
    rw [exists_split_cons]
    cases p with
    | separator =>
      rw [tokensOf, ih]
      simp [Piece.endsInDot]
    | word t =>
      rw [tokensOf, freeNames, List.mem_append, ih, mem_freeName_iff, ← and_or_left]
      simp [Piece.endsInDot]

/-! ### The mode of the inference

All that matters can be said from the end of the pieces, so the inductions add a piece behind
them. -/

theorem modeAfter_concat (ps : List Piece) (p : Piece) :
    modeAfter (ps ++ [p]) = (modeAfter ps).step p := List.foldl_concat ..

theorem endsInDot_concat (ps : List Piece) (p : Piece) :
    endsInDot (ps ++ [p]) = p.endsInDot (endsInDot ps) := List.foldl_concat ..

theorem EndsInRun.concat {p : Piece} (h : EndsInRun ps) (hp : p.continuesRun = true) :
    EndsInRun (ps ++ [p]) := by
  obtain ⟨before, x, chain, rfl, hchain⟩ := h
  refine ⟨before, x, chain ++ [p], by simp, ?_⟩
  rw [List.forall_mem_append]
  exact ⟨hchain, List.forall_mem_singleton.2 hp⟩

/-- A run ends in a number or goes on. -/
theorem endsInRun_concat_iff {p : Piece} : EndsInRun (ps ++ [p]) ↔
    (∃ x, p = .word (.number x)) ∨ EndsInRun ps ∧ p.continuesRun = true := by
  constructor
  · rintro ⟨before, x, chain, heq, hchain⟩
    rcases List.eq_nil_or_concat chain with rfl | ⟨chain, p', rfl⟩
    · exact .inl ⟨x, List.singleton_inj.1 (List.append_inj' heq rfl).2⟩
    · have hsplit : ps ++ [p] = (before ++ .word (.number x) :: chain) ++ [p'] := by simpa using heq
      obtain ⟨rfl, hlast⟩ := List.append_inj' hsplit rfl
      obtain rfl := List.singleton_inj.1 hlast
      rw [List.concat_eq_append, List.forall_mem_append] at hchain
      exact .inr ⟨⟨before, x, chain, rfl, hchain.1⟩, hchain.2 p List.mem_cons_self⟩
  · rintro (⟨x, rfl⟩ | ⟨h, hp⟩)
    · exact ⟨ps, x, [], rfl, by simp⟩
    · exact h.concat hp

/-- A run is entered with a number, and stays one with what goes on with it. -/
theorem Mode.step_eq_run_iff {mode : Mode} {p : Piece} : mode.step p = run ↔
    (∃ x, p = .word (.number x)) ∨ mode = run ∧ p.continuesRun = true := by
  rcases p with _ | (s | x | s | s)
  · cases mode <;> simp [step, Piece.continuesRun]
  · cases mode <;> simp [step, Piece.continuesRun]
  · cases mode <;> simp [step]
  · cases mode <;> simp [step, Piece.continuesRun]
  · cases s <;> cases mode <;> simp [step, Piece.continuesRun]

/-- The inference is in a run exactly behind one. -/
theorem modeAfter_eq_run_iff : modeAfter ps = .run ↔ EndsInRun ps := by
  induction ps using List.reverseRecOn with
  | nil => simp [modeAfter, EndsInRun]
  | append_singleton ps p ih =>
    rw [modeAfter_concat, endsInRun_concat_iff, ← ih, Mode.step_eq_run_iff]

/-- Members are passed over behind a point, and behind separators after it. -/
theorem Mode.step_eq_afterDot {mode : Mode} {p : Piece} (h : mode.step p = afterDot) :
    p = .separator ∧ mode = afterDot ∨ p = .word (.symbol .dot) := by
  rcases p with _ | (s | x | s | s)
  · cases mode <;> first | exact .inl ⟨rfl, rfl⟩ | cases h
  · cases mode <;> cases h
  · cases mode <;> cases h
  · cases mode <;> cases h
  · cases s <;> first | exact .inr rfl | cases mode <;> cases h

/-- Where the inference passes over members, a point has come last. -/
theorem endsInDot_of_modeAfter (h : modeAfter ps = .afterDot) : endsInDot ps = true := by
  induction ps using List.reverseRecOn with
  | nil => cases h
  | append_singleton ps p ih =>
    rw [modeAfter_concat] at h
    rw [endsInDot_concat]
    rcases Mode.step_eq_afterDot h with ⟨rfl, hmode⟩ | rfl
    · exact ih hmode
    · rfl

/-- Some pieces end in a point that is part of a run, and separators behind it. -/
def EndsInLostDot (ps : List Piece) : Prop :=
  ∃ before gap, ps = before ++ .word (.symbol .dot) :: gap ∧ EndsInRun before ∧ gap ≠ [] ∧
    ∀ p ∈ gap, p = .separator

theorem foldl_step_gap (hgap : ∀ p ∈ gap, p = .separator) :
    gap.foldl Mode.step .plain = .plain := by
  induction gap with
  | nil => rfl
  | cons p gap ih =>
    obtain ⟨rfl, hothers⟩ := List.forall_mem_cons.1 hgap
    exact ih hothers

/-- A separator ends a run, the point in it being forgotten. -/
theorem EndsInLostDot.modeAfter_eq (h : EndsInLostDot ps) : modeAfter ps = .plain := by
  obtain ⟨before, gap, rfl, hrun, hne, hgap⟩ := h
  have hmode : before.foldl Mode.step .plain = .run := modeAfter_eq_run_iff.2 hrun
  obtain ⟨p, gap, rfl⟩ := List.exists_cons_of_ne_nil hne
  obtain ⟨rfl, hothers⟩ := List.forall_mem_cons.1 hgap
  rw [modeAfter, List.foldl_append, hmode]
  exact foldl_step_gap hothers

/-- A run ends in a word, and if that is a symbol, it is a point that is part of it. -/
theorem EndsInRun.exists_last (h : EndsInRun ps) : ∃ before t, ps = before ++ [.word t] ∧
    (t.isSymbol = true → t = .symbol .dot ∧ EndsInRun before) := by
  rcases List.eq_nil_or_concat ps with rfl | ⟨before, p, rfl⟩
  · obtain ⟨before, x, chain, heq, -⟩ := h
    simp at heq
  rw [List.concat_eq_append] at h ⊢
  rcases endsInRun_concat_iff.1 h with ⟨x, rfl⟩ | ⟨hrun, hp⟩
  · exact ⟨before, _, rfl, fun hsymbol ↦ by cases hsymbol⟩
  · unfold Piece.continuesRun at hp
    split at hp
    · exact ⟨before, _, rfl, fun hsymbol ↦ by cases hsymbol⟩
    · exact ⟨before, _, rfl, fun _ ↦ ⟨rfl, hrun⟩⟩
    · cases hp

/-- If a point has come last and is forgotten, it was part of a run. -/
theorem endsInLostDot_of_modeAfter (h : modeAfter ps = .plain) (hdot : endsInDot ps = true) :
    EndsInLostDot ps := by
  induction ps using List.reverseRecOn with
  | nil => cases hdot
  | append_singleton ps p ih =>
    rw [modeAfter_concat] at h
    rw [endsInDot_concat] at hdot
    cases p with
    | separator =>
      -- the point was lost before, or it is lost here, where the separator ends the run
      cases hmode : modeAfter ps with
      | plain =>
        obtain ⟨before, gap, rfl, hrun, hne, hgap⟩ := ih hmode hdot
        refine ⟨before, gap ++ [.separator], by simp, hrun, by simp, ?_⟩
        rw [List.forall_mem_append]
        exact ⟨hgap, List.forall_mem_singleton.2 rfl⟩
      | run =>
        obtain ⟨before, t, rfl, hlast⟩ := (modeAfter_eq_run_iff.1 hmode).exists_last
        change endsInDot (before ++ [.word t]) = true at hdot
        rw [endsInDot_concat] at hdot
        obtain rfl := Token.eq_of_isDot hdot
        exact ⟨before, [.separator], by simp, (hlast rfl).2, by simp, by simp⟩
      | afterDot =>
        rw [hmode] at h
        cases h
    | word t =>
      obtain rfl := Token.eq_of_isDot hdot
      cases hmode : modeAfter ps <;> rw [hmode] at h <;> cases h

/-- Behind anything but a name or a number, the inference takes a name exactly if no point comes
last, or only one that is lost. -/
theorem modeAfter_eq_plain_iff (hlast : ∀ before t, ps = before ++ [.word t] → t.isSymbol = true) :
    modeAfter ps = .plain ↔ endsInDot ps = false ∨ EndsInLostDot ps := by
  constructor
  · intro h
    by_cases hdot : endsInDot ps = true
    · exact .inr (endsInLostDot_of_modeAfter h hdot)
    · exact .inl (eq_false_of_ne_true hdot)
  · rintro (hdot | h)
    · cases hmode : modeAfter ps with
      | plain => rfl
      | afterDot =>
        rw [endsInDot_of_modeAfter hmode] at hdot
        cases hdot
      | run =>
        obtain ⟨before, t, rfl, hdotted⟩ := (modeAfter_eq_run_iff.1 hmode).exists_last
        obtain ⟨rfl, -⟩ := hdotted (hlast before t rfl)
        rw [endsInDot_concat] at hdot
        cases hdot
    · exact h.modeAfter_eq

/-- A name strays behind a point that is lost. -/
theorem strays_iff : Strays n ps ↔
    ∃ before after, ps = before ++ .word (.name n) :: after ∧ EndsInLostDot before := by
  constructor
  · rintro ⟨before, gap, after, rfl, hrun, hne, hgap⟩
    exact ⟨before ++ .word (.symbol .dot) :: gap, after, by simp, before, gap, rfl, hrun, hne, hgap⟩
  · rintro ⟨_, after, rfl, before, gap, rfl, hrun, hne, hgap⟩
    exact ⟨before, gap, after, by simp, hrun, hne, hgap⟩

/-- **What the inference takes** from pieces whose words are apart: the names that are read, and
those that stray. -/
theorem mem_seen_iff_of_alternates (h : Alternates (tokensOf ps)) : n ∈ seen .plain ps ↔
    n ∈ freeNames false (tokensOf ps) ∨ n ∉ reservedNames ∧ Strays n ps := by
  rw [mem_seen_iff, mem_freeNames_iff, strays_iff, ← and_or_left]
  refine and_congr_right fun _ ↦ ?_
  rw [← exists_or]
  refine exists_congr fun before ↦ ?_
  rw [← exists_or]
  refine exists_congr fun after ↦ ?_
  rw [← and_or_left]
  refine and_congr_right ?_
  rintro rfl
  refine modeAfter_eq_plain_iff ?_
  rintro before t rfl
  rw [List.append_assoc, tokensOf_append] at h
  exact (List.isChain_append_cons_cons.1 h).2.1.resolve_right Bool.false_ne_true

end

/-! ## Unbound names

Only a name that is read can be unbound, and it is bound if the inference has found it. -/

theorem MathFunction.apply_ne_unbound (f : MathFunction) (xs : List Binary64) (s : String) :
    f.apply xs ≠ .error (.unbound s) := by
  intro h
  unfold MathFunction.apply at h
  split at h <;> try cases h
  split at h <;> cases h

namespace Expr

mutual

/-- **A name is unbound** only if the expression reads it and the scope does not have it. -/
theorem eval_unbound {scope : Scope} {s : String} :
    ∀ e : Expr, e.eval scope = .error (.unbound s) → s ∈ e.names ∧ s ∉ Table.names scope
  | .literal l, h => by cases l <;> cases h
  | .name s', h => by
    rw [eval] at h
    split at h
    · cases h
    · rename_i hnone
      cases h
      exact ⟨by simp [names], Table.find?_eq_none_iff.1 hnone⟩
  | .member object property, h => by
    rw [eval] at h
    split at h
    · cases h
    · rcases eq_error_or_exists_of_bind_eq_error h with h | ⟨a, -, h⟩
      · rw [names]
        exact eval_unbound object h
      · cases h
  | .call f arguments, h => by
    rw [eval] at h
    rcases eq_error_or_exists_of_bind_eq_error h with h | ⟨xs, -, h⟩
    · rw [names]
      exact evalNumbers_unbound arguments h
    · rcases eq_error_or_exists_of_bind_eq_error h with h | ⟨x, -, h⟩
      · exact absurd h (f.apply_ne_unbound xs s)
      · cases h
  | .unary op operand, h => by
    rw [eval] at h
    rcases eq_error_or_exists_of_bind_eq_error h with h | ⟨a, -, h⟩
    · rw [names]
      exact eval_unbound operand h
    · cases h
  | .binary op left right, h => by
    rw [eval] at h
    rw [names, List.mem_append]
    rcases eq_error_or_exists_of_bind_eq_error h with h | ⟨a, -, h⟩
    · exact (eval_unbound left h).imp_left .inl
    · rcases eq_error_or_exists_of_bind_eq_error h with h | ⟨b, -, h⟩
      · exact (eval_unbound right h).imp_left .inr
      · cases h
  | .logical op left right, h => by
    rw [eval] at h
    rw [names, List.mem_append]
    rcases eq_error_or_exists_of_bind_eq_error h with h | ⟨a, -, h⟩
    · exact (eval_unbound left h).imp_left .inl
    · split at h
      · cases h
      · cases h
      · exact (eval_unbound right h).imp_left .inr
  | .conditional condition yes no, h => by
    rw [eval] at h
    rw [names, List.mem_append, List.mem_append]
    rcases eq_error_or_exists_of_bind_eq_error h with h | ⟨a, -, h⟩
    · exact (eval_unbound condition h).imp_left .inl
    · split at h
      · exact (eval_unbound yes h).imp_left fun hs ↦ .inr (.inl hs)
      · exact (eval_unbound no h).imp_left fun hs ↦ .inr (.inr hs)

/-- The same of arguments. -/
theorem evalNumbers_unbound {scope : Scope} {s : String} :
    ∀ es : List Expr, evalNumbers scope es = .error (.unbound s) →
      s ∈ allNames es ∧ s ∉ Table.names scope
  | [], h => by
    rw [evalNumbers] at h
    cases h
  | e :: es, h => by
    rw [evalNumbers] at h
    rw [allNames, List.mem_append]
    rcases eq_error_or_exists_of_bind_eq_error h with h | ⟨a, -, h⟩
    · exact (eval_unbound e h).imp_left .inl
    · rcases eq_error_or_exists_of_bind_eq_error h with h | ⟨xs, -, h⟩
      · exact (evalNumbers_unbound es h).imp_left .inr
      · cases h

end

end Expr

/-- The scope has the names of the dependencies, with or without a value. -/
theorem mem_names_scopeOf {values : Record} {dependencies : List String} {s : String} :
    s ∈ Table.names (scopeOf values dependencies) ↔ s ∈ dependencies := by
  rw [scopeOf, Table.ofList, Table.mem_names_overlay]
  simp [Table.names]

/-! ## The inference and the tree -/

/-- **What is inferred from the text of an expression**: of the names that can be fields, those that
its tree reads and those that stray in the text.  So it is what the tree reads exactly if no other
name strays; and in any case a name that is unbound among the inferred ones is none that can be a
field. -/
theorem inferredReads_of_exprOfText {source : String} {e : Expr} (h : exprOfText source = .ok e) :
    ∃ ps, Cut source.toList ps ∧
      (∀ n, n ∈ inferredReads source ↔ n ∉ reservedNames ∧ (n ∈ e.names ∨ Strays n ps)) ∧
      ((∀ n, n ∈ inferredReads source ↔ n ∈ e.names ∧ n ∉ reservedNames) ↔
        ∀ n, Strays n ps → n ∈ e.names ∨ n ∈ reservedNames) ∧
      ∀ values s, e.eval (scopeOf values (inferredReads source)) = .error (.unbound s) →
        s ∈ e.names ∧ s ∈ reservedNames := by
  obtain ⟨-, ps, hcut, depth, -, hphrase⟩ := exprOfText_eq_ok_iff.1 h
  have hreads : ∀ n, n ∈ inferredReads source ↔
      n ∉ reservedNames ∧ (n ∈ e.names ∨ Strays n ps) := fun n ↦ by
    rw [inferredReads, Names.mem_ofList, show namesFrom false source.toList = _ from
      hcut.namesIn_eq_seen .plain, mem_seen_iff_of_alternates hphrase.alternates,
      hphrase.freeNames_eq, mem_unreserved, and_comm, ← and_or_left]
  refine ⟨ps, hcut, hreads, ?_, fun values s hunbound ↦ ?_⟩
  · constructor
    · intro heq n hstrays
      by_cases hn : n ∈ reservedNames
      · exact .inr hn
      · exact .inl ((heq n).1 ((hreads n).2 ⟨hn, .inr hstrays⟩)).1
    · intro hall n
      rw [hreads, and_comm]
      refine and_congr_left fun hn ↦ ⟨?_, .inl⟩
      rintro (hname | hstrays)
      · exact hname
      · exact (hall n hstrays).resolve_right hn
  · obtain ⟨hname, hunbound⟩ := e.eval_unbound hunbound
    refine ⟨hname, Classical.byContradiction fun hs ↦ hunbound ?_⟩
    exact mem_names_scopeOf.2 ((hreads s).2 ⟨hs, .inl hname⟩)

/-- Separators around the point of a member are nothing to the inference, and nothing is unbound. -/
theorem inferredReads_members :
    exprOfText "order . total + net" =
      .ok (.binary .add (.member (.name "order") "total") (.name "net")) ∧
    inferredReads "order . total + net" = ["net", "order"] ∧
    ∀ values s, (Expr.binary .add (.member (.name "order") "total") (.name "net")).eval
      (scopeOf values ["net", "order"]) ≠ .error (.unbound s) := by
  have htokens : tokens "order . total + net".toList =
      .ok ([⟨.name "order", 0⟩, ⟨.symbol .dot, 6⟩, ⟨.name "total", 8⟩, ⟨.symbol .plus, 14⟩,
        ⟨.name "net", 16⟩], 19) := by decide +kernel
  have hread : exprOfText "order . total + net" =
      .ok (.binary .add (.member (.name "order") "total") (.name "net")) := by
    rw [exprOfText, htokens]
    with_unfolding_all rfl
  have hreads : inferredReads "order . total + net" = ["net", "order"] := by decide +kernel
  refine ⟨hread, hreads, fun values s hunbound ↦ ?_⟩
  obtain ⟨ps, -, -, -, hbound⟩ := inferredReads_of_exprOfText hread
  rw [← hreads] at hunbound
  obtain ⟨hname, hreserved⟩ := hbound values s hunbound
  simp only [Expr.names, List.singleton_append, List.mem_cons, List.not_mem_nil, or_false] at hname
  rcases hname with rfl | rfl <;> revert hreserved <;> decide

/-- **A member of a number is inferred as a field** if a separator stands behind the point that is
attached to the number. -/
theorem inferredReads_stray :
    ∃ e, exprOfText "1.5. a" = .ok e ∧ e.names = [] ∧ inferredReads "1.5. a" = ["a"] := by
  have hnames : (exprOfText "1.5. a").map Expr.names = .ok [] := by decide +kernel
  cases h : exprOfText "1.5. a" with
  | error err =>
    rw [h] at hnames
    cases hnames
  | ok e =>
    rw [h] at hnames
    exact ⟨e, rfl, Except.ok.inj hnames, by decide +kernel⟩

end ReactiveForm
