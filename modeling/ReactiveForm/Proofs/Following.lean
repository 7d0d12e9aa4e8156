import ReactiveForm.Expression.Cursor

/-!
# Following a reading with a cursor

There are two readings of an expression.  One takes the words as a list and the level as an argument
(`conditional`, `chain`, …); what is known about the grammar is known of this one.  The other moves
a cursor over a stream and counts the levels in its state (`TokenStream.readConditional`, …).  This
module says what it means that the second one does what the first one does, and has the rules by
which that is shown step by step.

## The judgement

`Follows s stop finish raise least n ts run parsed` is about `run`, started anywhere in the stream
`s` on level `n` with the words `ts` to come, of which `stop` is the end and `finish` the position
of the end mark.  It says that

* `run` comes to an end (`Gives`),
* all the places it visits are within the stream and within the limit (`Trail.GoesOn`),
* the depth is `raise` more in the end than it was, whether or not there is a fault, and
* the answer is `parsed`, with at least `least` words taken, and the cursor is before those words
  that `parsed` leaves (`SameAnswer`).

The four are shown together because each step needs all of them: the next step starts where the
words are seen, on the level that the one before has left, and a loop ends because each round takes
a word.

## The rules

There is one rule for each way in which steps are put together: nothing (`Follows.pure`), a fault
(`Follows.throw`), one after another (`Follows.bind_raising`, of which `Follows.bind`,
`Follows.bind_ok` and `Follows.bind_fault` are cases), a look at the current word
(`Follows.current`), a word passed over (`Follows.advance`, `Follows.passes`, `Follows.symbol`,
`Follows.name`), one level down (`Follows.descend`, `Follows.tooDeep`), and the level set back
(`Follows.restore`, `Follows.within`).  A function of the reading is followed by applying the rules
in the order of its steps, and no proof looks at a state again.
-/

set_option autoImplicit false
namespace ReactiveForm

/-! ## Places

A trail remembers all places the cursor has been at, so that something can be said of the way and
not only of its end. -/

/-- **A place within a stream**: the index is one of a word or an end mark, and the depth is within
the limit. -/
structure Cursor.Within (s : TokenStream) (c : Cursor) : Prop where
  index : c.index < s.size
  nesting : c.nesting ≤ maxNesting

/-- **A trail goes on within a stream**: nothing of it is forgotten, and what is added are places
within the stream. -/
def Trail.GoesOn (s : TokenStream) (t t' : Trail) : Prop :=
  ∃ passed, t'.places = passed ++ t.places ∧ ∀ c ∈ passed, c.Within s

section

variable {s : TokenStream} {t t₁ t₂ : Trail}

theorem Trail.GoesOn.refl (s : TokenStream) (t : Trail) : t.GoesOn s t :=
  ⟨[], rfl, List.forall_mem_nil _⟩

theorem Trail.GoesOn.trans (h : t.GoesOn s t₁) (h' : t₁.GoesOn s t₂) : t.GoesOn s t₂ := by
  obtain ⟨passed, hpassed, hwithin⟩ := h
  obtain ⟨passed', hpassed', hwithin'⟩ := h'
  exact ⟨passed' ++ passed, by rw [hpassed', hpassed, List.append_assoc],
    List.forall_mem_append.2 ⟨hwithin', hwithin⟩⟩

theorem Trail.GoesOn.goTo {c : Cursor} (hc : c.Within s) : t.GoesOn s ⟨c, t.places⟩ :=
  ⟨[c], rfl, List.forall_mem_singleton.2 hc⟩

/-- A trail that has gone on within a stream stands within it. -/
theorem Trail.GoesOn.within (h : t.GoesOn s t₁) (ht : t.now.Within s) : t₁.now.Within s := by
  obtain ⟨passed, hpassed, hwithin⟩ := h
  cases passed with
  | nil => exact (List.cons.inj hpassed).1 ▸ ht
  | cons c passed => exact (List.cons.inj hpassed).1 ▸ hwithin c List.mem_cons_self

end

/-! ## What the cursor sees -/

/-- **What comes next at an index**: some words, and behind them the end mark at another index. -/
inductive TokenStream.Sees (s : TokenStream) (stop finish : Nat) : Nat → List Placed → Prop where
  | mark (hstop : stop < s.size) (hentry : s.entry stop = (none, finish)) :
      TokenStream.Sees s stop finish stop []
  | word {index : Nat} {t : Placed} {ts : List Placed}
      (hentry : s.entry index = (some t.token, t.position))
      (h : TokenStream.Sees s stop finish (index + 1) ts) :
      TokenStream.Sees s stop finish index (t :: ts)

/-- The words that come next, seen as the word under the cursor. -/
def firstEntry (finish : Nat) (ts : List Placed) : Option Token × Nat :=
  (ts.head?.map (·.token), nextPosition finish ts)

section

variable {s : TokenStream} {stop finish index : Nat} {t : Placed} {ts : List Placed}

/-- With words to come, the word under the cursor is the first of them. -/
theorem firstEntry_cons (finish : Nat) (t : Placed) (ts : List Placed) :
    firstEntry finish (t :: ts) = (some t.token, t.position) := rfl

/-- The end mark is as far away as there are words. -/
theorem TokenStream.Sees.add_length (h : s.Sees stop finish index ts) :
    index + ts.length = stop := by
  induction h with
  | mark => rfl
  | word _ _ ih => rw [List.length_cons, ← ih, Nat.add_right_comm, Nat.add_assoc]

theorem TokenStream.Sees.stop_lt (h : s.Sees stop finish index ts) : stop < s.size := by
  induction h with
  | mark hstop _ => exact hstop
  | word _ _ ih => exact ih

/-- What is under the cursor is told by the words to come. -/
theorem TokenStream.Sees.entry_eq (h : s.Sees stop finish index ts) :
    s.entry index = firstEntry finish ts := by
  cases h with
  | mark _ hentry => exact hentry
  | word hentry _ => exact hentry

/-- Behind a word there is at least the end mark. -/
theorem TokenStream.Sees.succ_lt (h : s.Sees stop finish index (t :: ts)) : index + 1 < s.size := by
  have hlength := h.add_length
  have hlt := h.stop_lt
  rw [List.length_cons] at hlength
  omega

theorem TokenStream.Sees.tail (h : s.Sees stop finish index (t :: ts)) :
    s.Sees stop finish (index + 1) ts := by
  cases h with
  | word _ h => exact h

/-- From any index on, there is an end mark. -/
theorem TokenStream.exists_sees (s : TokenStream) (h : index < s.size) :
    ∃ stop finish ts, s.Sees stop finish index ts := by
  obtain ⟨left, hleft⟩ := Nat.exists_eq_add_of_lt h
  induction left generalizing index with
  | zero =>
    refine ⟨index, s.finish, [], .mark h ?_⟩
    rw [TokenStream.size] at hleft
    rw [TokenStream.entry, List.getD_eq_getElem?_getD, List.getElem?_eq_none (by omega),
      Option.getD_none]
  | succ left ih =>
    cases hentry : s.entry index with
    | mk token? position =>
      cases token? with
      | none => exact ⟨index, position, [], .mark h hentry⟩
      | some token =>
        have hnext : index + 1 < s.size := by omega
        obtain ⟨stop, finish, ts, hsees⟩ := ih hnext (by omega)
        exact ⟨stop, finish, ⟨token, position⟩ :: ts, .word hentry hsees⟩

/-- A word under the cursor is the first of those to come. -/
theorem eq_cons_of_firstEntry {token : Token} (h : (firstEntry finish ts).1 = some token) :
    ∃ position rest, ts = ⟨token, position⟩ :: rest := by
  cases ts with
  | nil => cases h
  | cons t ts => exact ⟨t.position, ts, by rw [← Option.some.inj h]⟩

theorem describeEntry_firstEntry (finish : Nat) (ts : List Placed) :
    describeEntry (firstEntry finish ts).1 = nextText ts := by
  cases ts <;> rfl

end

/-! ## Following the other reading

The functions of the reading call each other without a bound of their own, and are given one: a
number of calls that may be nested.  A statement about a reading is one about all these numbers at
once, large and small. -/

/-- **A trail stands at a level before some words.** -/
structure Trail.At (s : TokenStream) (stop finish n : Nat) (ts : List Placed) (t : Trail) :
    Prop where
  within : t.now.Within s
  nesting : t.now.nesting = n
  sees : s.Sees stop finish t.now.index ts

/-- **An answer is the same as another one**, which also says what follows; a number of words at
least is taken. -/
inductive SameAnswer {α : Type} (s : TokenStream) (stop finish least : Nat) (ts : List Placed) :
    Answer α → Nat → Except ExpressionError (α × List Placed) → Prop where
  | fault (e : ExpressionError) (index : Nat) :
      SameAnswer s stop finish least ts (.error e) index (.error e)
  | result (x : α) {index : Nat} {rest : List Placed} (hleast : rest.length + least ≤ ts.length)
      (hsees : s.Sees stop finish index rest) :
      SameAnswer s stop finish least ts (.ok x) index (.ok (x, rest))

/-- By how much the depth is raised after two parts of a reading, of which the first sets it back:
by what the second part raises it, and not at all where there is no second part. -/
def raisedBy {α : Type} (parsed : Except ExpressionError (α × List Placed))
    (raise : List Placed → Nat) : Nat :=
  match parsed with
  | .ok (_, rest) => raise rest
  | .error _ => 0

/-- **Steps come to a result**: they give it if calls may be nested deep enough, and no other one
if not. -/
structure Gives {α : Type} (run : Nat → Steps α) (t : Trail) (r : α) (t' : Trail) : Prop where
  ends : ∃ enough, ∀ calls, enough ≤ calls → run calls t = some (r, t')
  only : ∀ calls, run calls t = none ∨ run calls t = some (r, t')

section

variable {α β : Type} {t t' t'' : Trail}

/-- What gives the result without any calls gives it. -/
theorem Gives.of_forall {run : Nat → Steps α} {r : α} (h : ∀ calls, run calls t = some (r, t')) :
    Gives run t r t' := ⟨⟨0, fun calls _ ↦ h calls⟩, fun calls ↦ .inr (h calls)⟩

/-- A call takes one from the calls that may be nested, and without any left there is no result. -/
theorem Gives.succ {run : Nat → Steps α} {r : α} (hzero : run 0 t = none)
    (h : Gives (fun calls ↦ run (calls + 1)) t r t') : Gives run t r t' := by
  obtain ⟨enough, hrun⟩ := h.ends
  refine ⟨⟨enough + 1, fun calls hcalls ↦ ?_⟩, fun calls ↦ ?_⟩
  · cases calls with
    | zero => exact absurd hcalls (Nat.not_succ_le_zero _)
    | succ calls => exact hrun calls (Nat.le_of_succ_le_succ hcalls)
  · cases calls with
    | zero => exact .inl hzero
    | succ calls => exact h.only calls

theorem steps_bind_of_none {run : Steps α} {next : α → Steps β} (h : run t = none) :
    (run >>= next) t = none := by
  change (run t >>= fun p ↦ next p.1 p.2) = _
  rw [h]
  rfl

theorem steps_bind_of_some {run : Steps α} {next : α → Steps β} {x : α}
    (h : run t = some (x, t')) : (run >>= next) t = next x t' := by
  change (run t >>= fun p ↦ next p.1 p.2) = _
  rw [h]
  rfl

/-- **One after another**: enough calls for both are the larger of the two numbers. -/
theorem Gives.bind {run : Nat → Steps α} {x : α} {r : β} (next : Nat → α → Steps β)
    (h : Gives run t x t') (hnext : Gives (fun calls ↦ next calls x) t' r t'') :
    Gives (fun calls ↦ run calls >>= next calls) t r t'' := by
  obtain ⟨enough, hrun⟩ := h.ends
  obtain ⟨enough', hrun'⟩ := hnext.ends
  refine ⟨⟨max enough enough', fun calls hcalls ↦ ?_⟩, fun calls ↦ ?_⟩
  · rw [steps_bind_of_some (hrun calls (Nat.le_trans (Nat.le_max_left _ _) hcalls))]
    exact hrun' calls (Nat.le_trans (Nat.le_max_right _ _) hcalls)
  · cases h.only calls with
    | inl hnone => exact .inl (steps_bind_of_none hnone)
    | inr hsome =>
      rw [steps_bind_of_some hsome]
      exact hnext.only calls

theorem Gives.bind_ok {run : Nat → Reading α} {next : Nat → α → Reading β} {x : α} {r : Answer β}
    (h : Gives run t (.ok x) t') (hnext : Gives (fun calls ↦ next calls x) t' r t'') :
    Gives (fun calls ↦ (run calls >>= next calls : Reading β)) t r t'' :=
  Gives.bind (fun calls ↦ ExceptT.bindCont (next calls)) h hnext

theorem Gives.bind_fault {run : Nat → Reading α} {next : Nat → α → Reading β} {e : ExpressionError}
    (h : Gives run t (.error e) t') :
    Gives (fun calls ↦ (run calls >>= next calls : Reading β)) t (.error e) t' :=
  Gives.bind (fun calls ↦ ExceptT.bindCont (next calls)) h (.of_forall fun _ ↦ rfl)

end

/-- **A reading follows another one** that works at a level on some words: wherever it starts, it
comes to an end, stays within the stream and gives the same answer.  The depth is `raise` more than
it was, whatever the answer is. -/
def Follows {α : Type} (s : TokenStream) (stop finish raise least n : Nat) (ts : List Placed)
    (run : Nat → Reading α) (parsed : Except ExpressionError (α × List Placed)) : Prop :=
  ∀ t : Trail, t.At s stop finish n ts → ∃ r t', Gives run t r t' ∧ t.GoesOn s t' ∧
    t'.now.nesting = n + raise ∧ SameAnswer s stop finish least ts r t'.now.index parsed

section

variable {α β : Type} {s : TokenStream} {stop finish raise least n : Nat} {ts rest : List Placed}
  {run : Nat → Reading α}
  {parsed : Except ExpressionError (α × List Placed)}

/-- Where no words have to be taken, it does not matter how many were. -/
theorem Follows.weaken (least : Nat) (h : Follows s stop finish raise least n ts run parsed) :
    Follows s stop finish raise 0 n ts run parsed := by
  intro t ht
  obtain ⟨r, t', hrun, hgoes, hrel, hsame⟩ := h t ht
  refine ⟨r, t', hrun, hgoes, hrel, ?_⟩
  cases hsame with
  | fault e => exact .fault e _
  | result x hleast hsees => exact .result x (Nat.le_trans (Nat.le_add_right _ _) hleast) hsees

/-- An answer at once takes no words. -/
theorem Follows.pure (x : α) :
    Follows s stop finish 0 0 n ts (fun _ ↦ Pure.pure x) (.ok (x, ts)) := fun t ht ↦
  ⟨.ok x, t, .of_forall fun _ ↦ rfl, .refl s t, ht.nesting, .result x (Nat.le_refl _) ht.sees⟩

/-- A fault leaves everything where it is. -/
theorem Follows.throw (e : ExpressionError) :
    Follows s stop finish 0 least n ts (fun _ ↦ (throw e : Reading α)) (.error e) := fun t ht ↦
  ⟨.error e, t, .of_forall fun _ ↦ rfl, .refl s t, ht.nesting, .fault e _⟩

/-- A function of the reading is followed as its body is. -/
theorem Follows.succ (hzero : ∀ t, run 0 t = none)
    (h : Follows s stop finish raise least n ts (fun calls ↦ run (calls + 1)) parsed) :
    Follows s stop finish raise least n ts run parsed := by
  intro t ht
  obtain ⟨r, t', hrun, hrest⟩ := h t ht
  exact ⟨r, t', hrun.succ (hzero t), hrest⟩

/-- **One reading after another.**  The first one sets the depth back; the second one may raise it,
by an amount that depends on the words where it starts. -/
theorem Follows.bind_raising {next : Nat → α → Reading β} {raises : List Placed → Nat}
    {parsedNext : α × List Placed → Except ExpressionError (β × List Placed)}
    (h : Follows s stop finish 0 least n ts run parsed)
    (hnext : ∀ x rest, rest.length + least ≤ ts.length → parsed = .ok (x, rest) →
      Follows s stop finish (raises rest) 0 n rest (fun calls ↦ next calls x)
        (parsedNext (x, rest))) :
    Follows s stop finish (raisedBy parsed raises) least n ts
      (fun calls ↦ run calls >>= next calls) (parsed >>= parsedNext) := by
  intro t ht
  obtain ⟨r, t', hrun, hgoes, hnesting, hsame⟩ := h t ht
  cases hsame with
  -- after a fault there is no second reading, and nothing that raises the depth
  | fault e => exact ⟨.error e, t', hrun.bind_fault, hgoes, hnesting, .fault e _⟩
  | @result x _ rest hleast hsees =>
    -- the second reading starts where the first one has left the cursor, on the level set back
    obtain ⟨r', t'', hrun', hgoes', hrel', hsame'⟩ :=
      hnext x rest hleast rfl t' ⟨hgoes.within ht.within, hnesting, hsees⟩
    refine ⟨r', t'', hrun.bind_ok hrun', hgoes.trans hgoes', hrel', ?_⟩
    change SameAnswer s stop finish least ts r' t''.now.index (parsedNext (x, rest))
    generalize parsedNext (x, rest) = parsed' at hsame' ⊢
    cases hsame' with
    | fault e => exact .fault e _
    | result y hleast' hsees' => exact .result y (by omega) hsees'

/-- One reading after another, both of which set the depth back. -/
theorem Follows.bind {next : Nat → α → Reading β}
    {parsedNext : α × List Placed → Except ExpressionError (β × List Placed)}
    (h : Follows s stop finish 0 least n ts run parsed)
    (hnext : ∀ x rest, rest.length + least ≤ ts.length → parsed = .ok (x, rest) →
      Follows s stop finish 0 0 n rest (fun calls ↦ next calls x) (parsedNext (x, rest))) :
    Follows s stop finish 0 least n ts (fun calls ↦ run calls >>= next calls)
      (parsed >>= parsedNext) := by
  have hraised : raisedBy parsed (fun _ ↦ 0) = 0 := by
    cases parsed <;> rfl
  exact hraised ▸ h.bind_raising hnext

/-- A reading after another that is known to come to a result. -/
theorem Follows.bind_ok {next : Nat → α → Reading β} {x : α}
    {parsed' : Except ExpressionError (β × List Placed)}
    (h : Follows s stop finish 0 least n ts run (.ok (x, rest)))
    (hnext : Follows s stop finish raise 0 n rest (fun calls ↦ next calls x) parsed') :
    Follows s stop finish raise least n ts (fun calls ↦ run calls >>= next calls) parsed' := by
  change Follows s stop finish (raisedBy (.ok (x, rest)) fun _ ↦ raise) least n ts
    (fun calls ↦ run calls >>= next calls) (.ok (x, rest) >>= fun _ ↦ parsed')
  refine h.bind_raising (fun y rest' _ hy ↦ ?_)
  obtain ⟨rfl, rfl⟩ := Prod.mk.inj (Except.ok.inj hy)
  exact hnext

/-- Nothing is read after a fault. -/
theorem Follows.bind_fault {next : Nat → α → Reading β} {e : ExpressionError}
    (h : Follows s stop finish 0 least n ts run (.error e)) :
    Follows s stop finish 0 least n ts (fun calls ↦ run calls >>= next calls) (.error e) := by
  change Follows s stop finish 0 least n ts (fun calls ↦ run calls >>= next calls)
    ((.error e : Except ExpressionError (α × List Placed)) >>= fun _ ↦ .error e)
  exact h.bind nofun

/-! ## Single steps

From here on the state is opened once for each kind of step, and not again. -/

/-- A look at the current word, which is the first of those to come. -/
theorem Follows.current {next : Nat → Option Token × Nat → Reading α}
    (h : Follows s stop finish raise least n ts (fun calls ↦ next calls (firstEntry finish ts))
      parsed) :
    Follows s stop finish raise least n ts (fun calls ↦ s.current >>= next calls) parsed := by
  intro t ht
  obtain ⟨r, t', hrun, hrest⟩ := h t ht
  have hcurrent : s.current t = some (.ok (firstEntry finish ts), t) := by
    rw [← ht.sees.entry_eq]
    rfl
  exact ⟨r, t', .bind_ok (.of_forall fun _ ↦ hcurrent) hrun, hrest⟩

/-- A fault at the current word says what was expected and what is there. -/
theorem Follows.mismatch (expected : String) :
    Follows s stop finish 0 least n ts (fun _ ↦ (s.mismatch expected : Reading α))
      (.error (unexpected finish expected ts)) := by
  refine .current ?_
  dsimp only
  rw [describeEntry_firstEntry]
  exact .throw _

/-- A word is passed over. -/
theorem Follows.advance {w : Placed} :
    Follows s stop finish 0 1 n (w :: rest) (fun _ ↦ s.advance) (.ok ((), rest)) := by
  intro t ht
  have hlt := ht.sees.succ_lt
  have hrun : s.advance t = some (.ok (), ⟨⟨t.now.index + 1, t.now.nesting⟩, t.places⟩) := by
    change (if t.now.index + 1 < s.size then
      (goTo ⟨t.now.index + 1, t.now.nesting⟩ : Reading Unit) else Pure.pure ()) t = _
    rw [if_pos hlt]
    rfl
  exact ⟨.ok (), _, .of_forall fun _ ↦ hrun, .goTo ⟨hlt, ht.within.nesting⟩, ht.nesting,
    .result () (Nat.le_refl _) ht.sees.tail⟩

/-- A symbol is passed over if it is there. -/
theorem Follows.passes {symbol : Symbol} {position : Nat} :
    Follows s stop finish 0 1 n (⟨.symbol symbol, position⟩ :: rest)
      (fun _ ↦ s.passes symbol) (.ok (true, rest)) := by
  have hentry : (firstEntry finish (⟨.symbol symbol, position⟩ :: rest)).1 =
      some (.symbol symbol) := rfl
  refine .current ?_
  simp only [if_pos hentry]
  exact .bind_ok .advance (.pure true)

/-- Where a symbol is not there, nothing is passed over, and what follows is read from here. -/
theorem Follows.passes_not {symbol : Symbol} {next : Nat → Bool → Reading α}
    (hne : ∀ position rest, ts ≠ ⟨.symbol symbol, position⟩ :: rest)
    (h : Follows s stop finish raise least n ts (fun calls ↦ next calls false) parsed) :
    Follows s stop finish raise least n ts (fun calls ↦ s.passes symbol >>= next calls)
      parsed := by
  intro t ht
  have hentry : ¬(s.entry t.now.index).1 = some (.symbol symbol) := by
    rw [ht.sees.entry_eq]
    intro hfirst
    obtain ⟨position, rest, heq⟩ := eq_cons_of_firstEntry hfirst
    exact hne position rest heq
  have hpasses : s.passes symbol t = some (.ok false, t) := by
    change (if (s.entry t.now.index).1 = some (.symbol symbol) then _ else _ : Reading Bool) t = _
    rw [if_neg hentry]
    rfl
  obtain ⟨r, t', hrun, hrest⟩ := h t ht
  exact ⟨r, t', .bind_ok (.of_forall fun _ ↦ hpasses) hrun, hrest⟩

/-- The other reading passes over a symbol that it expects. -/
theorem expectSymbol_cons (finish : Nat) (symbol : Symbol) (expected : String) (position : Nat)
    (rest : List Placed) :
    expectSymbol finish symbol expected (⟨.symbol symbol, position⟩ :: rest) = .ok rest :=
  if_pos rfl

/-- At anything but the symbol it expects, it gives up. -/
theorem expectSymbol_of_ne {symbol : Symbol} (expected : String)
    (h : ∀ position rest, ts ≠ ⟨.symbol symbol, position⟩ :: rest) :
    expectSymbol finish symbol expected ts = .error (unexpected finish expected ts) := by
  cases ts with
  | nil => rfl
  | cons t ts => exact if_neg fun heq ↦ h t.position ts (by rw [← heq])

/-- Reading goes on behind an expected symbol. -/
theorem Follows.symbol {symbol : Symbol} {expected : String} {next : Nat → Unit → Reading α}
    {parsedNext : List Placed → Except ExpressionError (α × List Placed)}
    (hnext : ∀ rest,
      Follows s stop finish 0 0 n rest (fun calls ↦ next calls ()) (parsedNext rest)) :
    Follows s stop finish 0 1 n ts (fun calls ↦ s.readSymbol symbol expected >>= next calls)
      (expectSymbol finish symbol expected ts >>= parsedNext) := by
  by_cases h : ∃ position rest, ts = ⟨.symbol symbol, position⟩ :: rest
  · obtain ⟨position, rest, rfl⟩ := h
    rw [expectSymbol_cons]
    have hsymbol : Follows s stop finish 0 1 n (⟨.symbol symbol, position⟩ :: rest)
        (fun _ ↦ s.readSymbol symbol expected) (.ok ((), rest)) := .bind_ok .passes (.pure ())
    exact .bind_ok hsymbol (hnext rest)
  · have hne : ∀ position rest, ts ≠ ⟨.symbol symbol, position⟩ :: rest :=
      fun position rest heq ↦ h ⟨position, rest, heq⟩
    have hsymbol : Follows s stop finish 0 1 n ts (fun _ ↦ s.readSymbol symbol expected)
        (.error (unexpected finish expected ts)) := .passes_not hne (.mismatch expected)
    rw [expectSymbol_of_ne expected hne]
    exact hsymbol.bind_fault

theorem expectName_of_ne (expected : String)
    (h : ∀ name position rest, ts ≠ ⟨.name name, position⟩ :: rest) :
    expectName finish expected ts = .error (unexpected finish expected ts) := by
  unfold expectName
  split
  · exact absurd rfl (h _ _ _)
  · rfl

/-- A name is read if it is there, and asked for if not. -/
theorem Follows.name (expected : String) :
    Follows s stop finish 0 1 n ts (fun _ ↦ s.readName expected)
      (expectName finish expected ts) := by
  refine .current ?_
  split
  · rename_i name hentry
    obtain ⟨position, rest, rfl⟩ := eq_cons_of_firstEntry hentry
    exact .bind_ok .advance (.pure name)
  · rename_i hname
    rw [expectName_of_ne expected fun name position rest heq ↦ hname name (by rw [heq]; rfl)]
    exact .mismatch expected

/-! ## Levels

Going down fails where the limit is, before anything is changed.  Going back up is never done step
by step: the level is set to what it was, also after a fault. -/

theorem descend_eq (position : Nat) (t : Trail) : descend position t =
    if maxNesting < t.now.nesting + 1 then some (.error (.tooDeep position), t)
    else some (.ok (), ⟨⟨t.now.index, t.now.nesting + 1⟩, t.places⟩) := by
  unfold descend
  change (if maxNesting < t.now.nesting + 1 then _ else _ : Reading Unit) t = _
  split <;> rfl

theorem descend_of_lt {t : Trail} (h : t.now.nesting < maxNesting) (position : Nat) :
    descend position t = some (.ok (), ⟨⟨t.now.index, t.now.nesting + 1⟩, t.places⟩) := by
  rw [descend_eq, if_neg (Nat.not_lt_of_le h)]

theorem descend_of_not_lt {t : Trail} (h : ¬t.now.nesting < maxNesting) (position : Nat) :
    descend position t = some (.error (.tooDeep position), t) := by
  rw [descend_eq, if_pos (Nat.lt_succ_of_le (Nat.le_of_not_lt h))]

/-- What follows on the next level leaves the depth raised by one level more. -/
theorem Follows.descend {next : Nat → Unit → Reading α} (position : Nat) (hn : n < maxNesting)
    (hnext : Follows s stop finish raise least (n + 1) ts (fun calls ↦ next calls ()) parsed) :
    Follows s stop finish (raise + 1) least n ts (fun calls ↦ descend position >>= next calls)
      parsed := by
  intro t ht
  obtain rfl := ht.nesting
  have hplace : Cursor.Within s ⟨t.now.index, t.now.nesting + 1⟩ := ⟨ht.within.index, hn⟩
  obtain ⟨r, t', hrun, hgoes, hrel, hsame⟩ := hnext ⟨_, t.places⟩ ⟨hplace, rfl, ht.sees⟩
  exact ⟨r, t', .bind_ok (.of_forall fun _ ↦ descend_of_lt hn position) hrun,
    (Trail.GoesOn.goTo hplace).trans hgoes, by rw [hrel, Nat.add_assoc, Nat.add_comm 1], hsame⟩

/-- On the last level there is no next one, and nothing that follows is done. -/
theorem Follows.tooDeep {next : Nat → Unit → Reading α} (position : Nat) (hn : ¬n < maxNesting) :
    Follows s stop finish 0 least n ts (fun calls ↦ ReactiveForm.descend position >>= next calls)
      (.error (.tooDeep position)) := by
  intro t ht
  obtain rfl := ht.nesting
  exact ⟨_, t, .bind_fault (.of_forall fun _ ↦ descend_of_not_lt hn position), .refl s t,
    rfl, .fault _ _⟩

/-- **The depth is set back**, whatever the answer is. -/
theorem Follows.restore {run : Nat → Steps (Answer α)}
    (h : Follows s stop finish raise least n ts run parsed) :
    Follows s stop finish 0 least n ts (fun calls ↦ (do
      let base ← here
      let result ← run calls
      restore base.nesting
      return result : Steps (Answer α))) parsed := by
  intro t ht
  obtain ⟨r, t', hrun, hgoes, -, hsame⟩ := h t ht
  -- a place more is visited: where the run has stopped, on the level where it started
  have hplace : Cursor.Within s ⟨t'.now.index, t.now.nesting⟩ :=
    ⟨(hgoes.within ht.within).index, ht.within.nesting⟩
  exact ⟨r, ⟨⟨t'.now.index, t.now.nesting⟩, t'.places⟩,
    .bind _ (.of_forall fun _ ↦ rfl) (.bind _ hrun (.of_forall fun _ ↦ rfl)),
    hgoes.trans (.goTo hplace), ht.nesting, hsame⟩

/-- **What is inside of something** is read on the next level, and the level is set back behind it.
On the last level it is not read at all. -/
theorem Follows.within {inside : TokenStream.Inside} {position : Nat} {parsed : Parsed}
    (h : n < maxNesting →
      Follows s stop finish 0 least (n + 1) ts (s.readInside inside) parsed) :
    Follows s stop finish 0 least n ts (s.readWithin position inside)
      (if n < maxNesting then parsed else .error (.tooDeep position)) := by
  refine .succ (fun _ ↦ rfl) ?_
  simp only [TokenStream.readWithin]
  intro t ht
  obtain rfl := ht.nesting
  by_cases hn : t.now.nesting < maxNesting
  · have hplace : Cursor.Within s ⟨t.now.index, t.now.nesting + 1⟩ := ⟨ht.within.index, hn⟩
    obtain ⟨r, t', hrun, hgoes, -, hsame⟩ := h hn ⟨_, t.places⟩ ⟨hplace, rfl, ht.sees⟩
    have hgoes' := (Trail.GoesOn.goTo hplace).trans hgoes
    have hback : Cursor.Within s ⟨t'.now.index, t.now.nesting⟩ :=
      ⟨(hgoes'.within ht.within).index, ht.within.nesting⟩
    rw [if_pos hn]
    refine ⟨r, ⟨⟨t'.now.index, t.now.nesting⟩, t'.places⟩, ?_, hgoes'.trans (.goTo hback), rfl,
      hsame⟩
    refine .bind _ (.of_forall fun _ ↦ rfl)
      (.bind _ (.of_forall fun _ ↦ descend_of_lt hn position) ?_)
    exact .bind _ hrun (.of_forall fun _ ↦ rfl)
  · rw [if_neg hn]
    refine ⟨.error (.tooDeep position), t, ?_, .refl s t, rfl, .fault _ _⟩
    exact .bind _ (.of_forall fun _ ↦ rfl)
      (.bind _ (.of_forall fun _ ↦ descend_of_not_lt hn position) (.of_forall fun _ ↦ rfl))

end

end ReactiveForm
