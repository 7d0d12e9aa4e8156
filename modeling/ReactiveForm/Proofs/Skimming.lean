import ReactiveForm.Expression.Reads
import ReactiveForm.Proofs.NumberText
import ReactiveForm.Proofs.Words

/-!
# What the inference of dependencies sees of a text

The inference goes over a text by characters and knows of no words.  On a text that can be cut into
words it does the same as something that goes over the pieces (`seen`): it is always in one of three
modes, and takes a name for one that is read if it is in the plain one.

A digit starts a run, which takes everything up to the next character that can stand neither in a
name nor in a number.  In particular a run takes a point that is attached to a number, and is over
at a separator behind that point.
-/

set_option autoImplicit false
namespace ReactiveForm

/-! ## Characters

The inference sorts characters by what they begin: a quoted text, a name, a run, a member, or
nothing.  The tests exclude each other, which is what its equations below rest on. -/

/-- Whether a character goes on with what a digit started. -/
def continuesRun (c : Char) : Bool := continuesName c || c = '.'

/-- Whether a character says nothing about the names around it. -/
def isInert (c : Char) : Bool :=
  !(c = '\'' || c = '"') && !startsName c && !c.isDigit && c != '.' && !isSeparator c

section

variable {c : Char} {cs rest : List Char} {b : Bool}

/-- A digit starts no name. -/
theorem startsName_of_isDigit (h : c.isDigit = true) : startsName c = false := by
  refine eq_false_of_ne_true fun hname ↦ ?_
  simp only [startsName, Bool.or_eq_true, decide_eq_true_eq] at hname
  rcases hname with (hname | rfl) | rfl
  · delta Char.isDigit Char.isAlpha Char.isUpper Char.isLower at h hname
    grind
  · cases h
  · cases h

theorem continuesRun_of_isDigit (h : c.isDigit = true) : continuesRun c = true := by
  simp [continuesRun, continuesName, Char.isAlphanum, h]

theorem continuesRun_of_continuesName (h : continuesName c = true) : continuesRun c = true := by
  simp [continuesRun, h]

theorem continuesName_of_startsName (h : startsName c = true) : continuesName c = true := by
  simp only [startsName, continuesName, Char.isAlphanum, Bool.or_eq_true] at h ⊢
  rcases h with (h | h) | h <;> simp [h]

/-- A test of characters that fails for both quotation marks fails for whatever starts a text. -/
theorem eq_false_of_quote (test : Char → Bool) (hsingle : test '\'' = false)
    (hdouble : test '"' = false) (h : (c = '\'' || c = '"') = true) : test c = false := by
  simp only [Bool.or_eq_true, decide_eq_true_eq] at h
  rcases h with rfl | rfl
  · exact hsingle
  · exact hdouble

/-- What is dropped anyway can be dropped before. -/
theorem dropWhile_dropWhile {p q : Char → Bool} (h : ∀ c, p c = true → q c = true)
    (cs : List Char) : (cs.dropWhile p).dropWhile q = cs.dropWhile q := by
  induction cs with
  | nil => rfl
  | cons c cs ih =>
    by_cases hc : p c = true
    · rw [List.dropWhile_cons_of_pos hc, List.dropWhile_cons_of_pos (h c hc), ih]
    · rw [List.dropWhile_cons_of_neg hc]

/-! ## The inference by characters

One equation for each kind of character that a text can begin with. -/

/-- A quoted text is skipped. -/
theorem namesFrom_quote (h : (c = '\'' || c = '"') = true) :
    namesFrom b (c :: cs) = namesFrom false (afterQuoted c cs) := by
  rw [namesFrom, if_pos h]

/-- A name is taken, unless a point comes before it or it is never a field. -/
theorem namesFrom_name (h : startsName c = true) :
    namesFrom b (c :: cs) =
      if b || reservedNames.contains (String.ofList (c :: cs.takeWhile continuesName)) then
        namesFrom false (cs.dropWhile continuesName)
      else
        String.ofList (c :: cs.takeWhile continuesName) ::
          namesFrom false (cs.dropWhile continuesName) := by
  have hquote : ¬(c = '\'' || c = '"') = true := fun hquote ↦
    ne_true_of_eq_false (eq_false_of_quote startsName rfl rfl hquote) h
  rw [namesFrom, if_neg hquote, if_pos h]

/-- A digit starts a run, which is skipped. -/
theorem namesFrom_digit (h : c.isDigit = true) :
    namesFrom b (c :: cs) = namesFrom false (cs.dropWhile continuesRun) := by
  have hquote : ¬(c = '\'' || c = '"') = true := fun hquote ↦
    ne_true_of_eq_false (eq_false_of_quote Char.isDigit rfl rfl hquote) h
  rw [namesFrom, if_neg hquote, if_neg (ne_true_of_eq_false (startsName_of_isDigit h)), if_pos h]
  rfl

theorem namesFrom_dot : namesFrom b ('.' :: cs) = namesFrom true cs := by
  rw [namesFrom]
  rfl

theorem namesFrom_separator (h : isSeparator c = true) :
    namesFrom b (c :: cs) = namesFrom b cs := by
  simp only [isSeparator, Bool.or_eq_true, decide_eq_true_eq] at h
  rcases h with ((rfl | rfl) | rfl) | rfl <;> rw [namesFrom] <;> rfl

/-- Any other character is passed over, and a point before it is forgotten. -/
theorem namesFrom_inert (h : isInert c = true) : namesFrom b (c :: cs) = namesFrom false cs := by
  simp only [isInert, Bool.and_eq_true, Bool.not_eq_true', bne_iff_ne] at h
  obtain ⟨⟨⟨⟨hquote, hname⟩, hdigit⟩, hdot⟩, hseparator⟩ := h
  rw [namesFrom]
  simp [hquote, hname, hdigit, hdot, hseparator]

end

/-! ## The characters of words

What the inference makes of a whole word, however many characters that is: a quoted text, a name and
a symbol are passed over at once, and a number is part of the run that its first digit starts. -/

section

variable {c : Char} {cs : List Char} {b : Bool}

/-- A number can start with a point, which the digit behind it makes part of the run. -/
theorem namesFrom_of_startsNumber (h : startsNumber (c :: cs) = true) :
    namesFrom b (c :: cs) = namesFrom false ((c :: cs).dropWhile continuesRun) := by
  rcases startsNumber_cons_iff.1 h with hc | ⟨rfl, d, tail, rfl, hd⟩
  · rw [namesFrom_digit hc, List.dropWhile_cons_of_pos (continuesRun_of_isDigit hc)]
  · rw [namesFrom_dot, namesFrom_digit hd, List.dropWhile_cons_of_pos (by decide),
      List.dropWhile_cons_of_pos (continuesRun_of_isDigit hd)]

theorem dropWhile_spanDigits (cs : List Char) :
    (spanDigits cs).2.dropWhile continuesRun = cs.dropWhile continuesRun :=
  dropWhile_dropWhile (fun _ ↦ continuesRun_of_isDigit) cs

theorem dropWhile_spanFraction (cs : List Char) :
    (spanFraction cs).2.dropWhile continuesRun = cs.dropWhile continuesRun := by
  unfold spanFraction
  split
  · rw [dropWhile_spanDigits, List.dropWhile_cons_of_pos (by decide)]
  · rfl

/-- A run stops at the sign of an exponent, but the digits behind it start another one. -/
theorem namesFrom_exponent_append {exponent : List Char} (h : IsExponent exponent)
    (rest : List Char) : namesFrom false ((exponent ++ rest).dropWhile continuesRun) =
      namesFrom false (rest.dropWhile continuesRun) := by
  have hmarks {mark : Char} (hmark : mark = 'e' ∨ mark = 'E') : continuesRun mark = true := by
    rcases hmark with rfl | rfl <;> decide
  cases h with
  | none => rfl
  | @unsigned mark d ds hmark hdigits =>
    have hrun : ∀ c ∈ mark :: d :: ds, continuesRun c = true :=
      List.forall_mem_cons.2 ⟨hmarks hmark, fun c hc ↦ continuesRun_of_isDigit (hdigits c hc)⟩
    rw [List.dropWhile_append_of_pos hrun]
  | @signed mark sign d ds hmark hsign hdigits =>
    have hstops : continuesRun sign = false := by rcases hsign with rfl | rfl <;> decide
    have hinert : isInert sign = true := by rcases hsign with rfl | rfl <;> decide
    have hrun : ∀ c ∈ ds, continuesRun c = true :=
      fun c hc ↦ continuesRun_of_isDigit (hdigits c (List.mem_cons_of_mem _ hc))
    rw [List.cons_append, List.dropWhile_cons_of_pos (hmarks hmark), List.cons_append,
      List.dropWhile_cons_of_neg (ne_true_of_eq_false hstops), namesFrom_inert hinert,
      List.cons_append, namesFrom_digit (hdigits d List.mem_cons_self),
      List.dropWhile_append_of_pos hrun]

/-- **A number is part of a run**, which goes on behind it. -/
theorem namesFrom_spanNumber (cs : List Char) :
    namesFrom false ((spanNumber cs).2.dropWhile continuesRun) =
      namesFrom false (cs.dropWhile continuesRun) := by
  rw [← dropWhile_spanDigits cs, ← dropWhile_spanFraction (spanDigits cs).2, spanNumber]
  generalize (spanFraction (spanDigits cs).2).2 = rest
  have hskip := namesFrom_exponent_append (isExponent_spanExponent rest) (spanExponent rest).2
  rw [spanExponent_append] at hskip
  exact hskip.symm

/-- What the inference skips of a quoted text is the text. -/
theorem afterQuoted_of_spanQuoted {quote : Char} {content written text lexeme rest : List Char}
    (h : spanQuoted quote content written cs = some (text, lexeme, rest)) :
    afterQuoted quote cs = rest := by
  fun_induction spanQuoted quote content written cs with
  | case1 => cases h
  | case2 content written c rest' ih =>
    rw [afterQuoted]
    exact ih h
  | case3 => cases h
  | case4 content written rest' hescape hc =>
    obtain ⟨-, -, rfl⟩ := Prod.mk.inj (Option.some.inj h)
    rw [afterQuoted, if_neg hc, if_pos rfl]
    exact hescape
  | case5 content written c rest' hescape hc hquote ih =>
    rw [afterQuoted, if_neg hc, if_neg hquote]
    · exact ih h
    · exact hescape

/-- Every symbol but the point is written with characters that say nothing about names. -/
theorem isInert_of_symbolAt? {symbol : Symbol} {lexeme rest : List Char}
    (h : symbolAt? cs = some (symbol, lexeme, rest)) (hdot : symbol ≠ .dot) :
    ∀ c ∈ lexeme, isInert c = true := by
  unfold symbolAt? at h
  split at h <;> cases h <;> first | exact absurd rfl hdot | exact List.all_eq_true.1 rfl

theorem eq_of_symbolAt?_dot {lexeme rest : List Char}
    (h : symbolAt? (c :: cs) = some (.dot, lexeme, rest)) : c = '.' ∧ rest = cs := by
  unfold symbolAt? at h
  split at h <;> cases h
  rename_i heq
  obtain ⟨rfl, rfl⟩ := List.cons.inj heq
  exact ⟨rfl, rfl⟩

/-- **What the inference can see of a word**: the token, and what follows, of a text that starts
with it. -/
inductive Skims : Char → List Char → Token → List Char → Prop where
  | number {c : Char} {cs : List Char} (x : Binary64) (h : startsNumber (c :: cs) = true) :
      Skims c cs (.number x) (spanNumber (c :: cs)).2
  | text {c : Char} (cs : List Char) (s : String) (h : (c = '\'' || c = '"') = true) :
      Skims c cs (.text s) (afterQuoted c cs)
  | name {c : Char} (cs : List Char) (h : startsName c = true) :
      Skims c cs (.name (String.ofList (c :: cs.takeWhile continuesName)))
        (cs.dropWhile continuesName)
  | dot (cs : List Char) : Skims '.' cs (.symbol .dot) cs
  | symbol {c : Char} {lexeme : List Char} {s : Symbol} (hs : s ≠ .dot) (rest : List Char)
      (h : ∀ d ∈ c :: lexeme, isInert d = true) : Skims c (lexeme ++ rest) (.symbol s) rest

/-- **Each word that is cut off can be skimmed.** -/
theorem skims_of_scan {position : Nat} {s : Scanned} (h : scan position c cs = .ok s) :
    Skims c cs s.token s.rest := by
  cases scan_eq_ok_iff.1 h with
  | number hnumber hx => exact .number _ hnumber
  | text hnumber hquote hspan =>
    dsimp only
    rw [← afterQuoted_of_spanQuoted hspan]
    exact .text cs _ hquote
  | name hnumber hquote hname => exact .name cs hname
  | @symbol symbol lexeme rest hnumber hquote hname hsymbol =>
    by_cases hdot : symbol = .dot
    · subst hdot
      obtain ⟨rfl, rfl⟩ := eq_of_symbolAt?_dot hsymbol
      exact .dot _
    · obtain ⟨happend, hne⟩ := symbolAt?_append hsymbol
      have hinert := isInert_of_symbolAt? hsymbol hdot
      cases lexeme with
      | nil => exact absurd rfl hne
      | cons d lexeme =>
        obtain ⟨rfl, rfl⟩ := List.cons.inj happend
        exact .symbol hdot rest hinert

end

/-! ## The inference by pieces

The inference is a machine with three modes.  In the first it takes the name that comes next, in the
second a point has come and the name is a member, and in the third a run goes on, at the end of
which all is forgotten, the point in it as well. -/

/-- **What the inference is about** to do with a name: to take it, to pass it over as a member, or
to pass it over as part of what a digit started. -/
inductive Mode where
  | plain | afterDot | run
deriving DecidableEq

namespace Mode

/-- The mode behind a piece. -/
def step : Mode → Piece → Mode
  | run, .separator => plain
  | mode, .separator => mode
  | _, .word (.number _) => run
  | run, .word (.name _) => run
  | run, .word (.symbol .dot) => run
  | _, .word (.symbol .dot) => afterDot
  | _, .word _ => plain

/-- The names of a text, if the inference comes to it in a mode. -/
def namesIn : Mode → List Char → List String
  | plain, cs => namesFrom false cs
  | afterDot, cs => namesFrom true cs
  | run, cs => namesFrom false (cs.dropWhile continuesRun)

end Mode

/-- The names that the inference takes at a piece. -/
def Mode.taken : Mode → Piece → List String
  | plain, .word (.name s) => if reservedNames.contains s then [] else [s]
  | _, _ => []

/-- **The names that the inference takes** from some pieces, in order. -/
def seen : Mode → List Piece → List String
  | _, [] => []
  | mode, p :: ps => mode.taken p ++ seen (mode.step p) ps

section

variable {c : Char} {cs rest : List Char}

/-- A run ends at what says nothing of names. -/
theorem continuesRun_of_isInert (h : isInert c = true) : continuesRun c = false := by
  simp only [isInert, startsName, Bool.and_eq_true, Bool.not_eq_true', Bool.or_eq_false_iff,
    bne_iff_ne, decide_eq_false_iff_not] at h
  obtain ⟨⟨⟨⟨-, hname⟩, hdigit⟩, hdot⟩, -⟩ := h
  simp [continuesRun, continuesName, Char.isAlphanum, hname, hdigit, hdot]

theorem continuesRun_of_isSeparator (h : isSeparator c = true) : continuesRun c = false := by
  simp only [isSeparator, Bool.or_eq_true, decide_eq_true_eq] at h
  rcases h with ((rfl | rfl) | rfl) | rfl <;> decide

theorem namesFrom_inert_append {lexeme : List Char} (h : ∀ d ∈ c :: lexeme, isInert d = true)
    (b : Bool) (rest : List Char) : namesFrom b (c :: (lexeme ++ rest)) = namesFrom false rest := by
  obtain ⟨hc, hothers⟩ := List.forall_mem_cons.1 h
  rw [namesFrom_inert hc]
  induction lexeme with
  | nil => rfl
  | cons d lexeme ih =>
    obtain ⟨hd, hothers⟩ := List.forall_mem_cons.1 hothers
    rw [List.cons_append, namesFrom_inert hd]
    exact ih (List.forall_mem_cons.2 ⟨hc, hothers⟩) hothers

theorem Mode.step_symbol {s : Symbol} (hs : s ≠ .dot) (mode : Mode) :
    mode.step (.word (.symbol s)) = plain := by
  cases s <;> first | exact absurd rfl hs | cases mode <;> rfl

theorem Mode.taken_symbol (s : Symbol) (mode : Mode) : mode.taken (.word (.symbol s)) = [] := by
  cases mode <;> rfl

/-- **Each word moves the inference on** by one step. -/
theorem Skims.namesIn_eq {t : Token} (h : Skims c cs t rest) (mode : Mode) :
    mode.namesIn (c :: cs) = mode.taken (.word t) ++ (mode.step (.word t)).namesIn rest := by
  cases h with
  | number x hnumber =>
    have hrun : mode.namesIn (c :: cs) = namesFrom false ((c :: cs).dropWhile continuesRun) := by
      cases mode with
      | run => rfl
      | _ => exact namesFrom_of_startsNumber hnumber
    rw [hrun, ← namesFrom_spanNumber]
    cases mode <;> rfl
  | text _ s hquote =>
    have hstop := eq_false_of_quote continuesRun rfl rfl hquote
    cases mode with
    | run =>
      rw [Mode.namesIn, List.dropWhile_cons_of_neg (ne_true_of_eq_false hstop)]
      exact namesFrom_quote hquote
    | _ => exact namesFrom_quote hquote
  | name _ hname =>
    cases mode with
    | plain =>
      rw [Mode.namesIn, namesFrom_name hname, Bool.false_or, Mode.taken]
      split <;> rfl
    | afterDot =>
      rw [Mode.namesIn, namesFrom_name hname, Bool.true_or, if_pos rfl]
      rfl
    | run =>
      have hname := continuesRun_of_continuesName (continuesName_of_startsName hname)
      rw [Mode.namesIn, List.dropWhile_cons_of_pos hname,
        ← dropWhile_dropWhile fun _ ↦ continuesRun_of_continuesName]
      rfl
  | dot =>
    cases mode with
    | run =>
      rw [Mode.namesIn, List.dropWhile_cons_of_pos (by decide)]
      rfl
    | _ => exact namesFrom_dot
  | @symbol _ lexeme s hs _ hinert =>
    rw [mode.taken_symbol, mode.step_symbol hs, List.nil_append]
    cases mode with
    | run =>
      have hstop := continuesRun_of_isInert (hinert c List.mem_cons_self)
      change namesFrom false ((c :: (lexeme ++ rest)).dropWhile continuesRun) = namesFrom false rest
      rw [List.dropWhile_cons_of_neg (ne_true_of_eq_false hstop)]
      exact namesFrom_inert_append hinert false rest
    | _ => exact namesFrom_inert_append hinert _ rest

/-- **On a text that is cut into pieces, the inference sees the pieces.** -/
theorem Cut.namesIn_eq_seen {ps : List Piece} (h : Cut cs ps) (mode : Mode) :
    mode.namesIn cs = seen mode ps := by
  induction h generalizing mode with
  | nil => cases mode <;> exact namesFrom.eq_1 _
  | separator hc _ ih =>
    rw [seen, ← ih]
    cases mode with
    | run =>
      rw [Mode.namesIn, List.dropWhile_cons_of_neg (ne_true_of_eq_false
        (continuesRun_of_isSeparator hc))]
      exact namesFrom_separator hc
    | _ => exact namesFrom_separator hc
  | word _ hscan _ ih => rw [(skims_of_scan hscan).namesIn_eq, ih, seen]

end

end ReactiveForm
