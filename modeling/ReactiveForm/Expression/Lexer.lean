import ReactiveForm.Expression.Token
import ReactiveForm.Numeric.Numeral

/-!
# From text to tokens

`tokens` cuts the text of an expression into words.  One word is read by `scan`, which returns the
word, the characters it was read from, and the characters that follow; `scan_append` says that
nothing is lost between the two, and `scan_rest_lt` that a word takes at least one character, on
which the recursion of `tokens` rests.  Only four characters separate words without being one: the
space, the tab, the line feed and the carriage return.
-/

set_option autoImplicit false
namespace ReactiveForm

/-- The size of a text in bytes. -/
def byteLength (cs : List Char) : Nat := cs.foldl (fun n c ↦ n + c.utf8Size) 0

/-- Whether a character separates words. -/
def isSeparator (c : Char) : Bool := c = ' ' || c = '\t' || c = '\n' || c = '\r'

/-- Whether a name can start with a character. -/
def startsName (c : Char) : Bool := c.isAlpha || c = '_' || c = '$'

/-- Whether a name can go on with a character. -/
def continuesName (c : Char) : Bool := c.isAlphanum || c = '_' || c = '$'

/-! ## Single words -/

/-- The symbol at the front of a text with the characters it takes, the longest one there is. -/
def symbolAt? : List Char → Option (Symbol × List Char × List Char)
  | '&' :: '&' :: rest => some (.and, ['&', '&'], rest)
  | '|' :: '|' :: rest => some (.or, ['|', '|'], rest)
  | '=' :: '=' :: '=' :: rest => some (.equal, ['=', '=', '='], rest)
  | '=' :: '=' :: rest => some (.equal, ['=', '='], rest)
  | '!' :: '=' :: '=' :: rest => some (.notEqual, ['!', '=', '='], rest)
  | '!' :: '=' :: rest => some (.notEqual, ['!', '='], rest)
  | '<' :: '=' :: rest => some (.atMost, ['<', '='], rest)
  | '>' :: '=' :: rest => some (.atLeast, ['>', '='], rest)
  | '!' :: rest => some (.not, ['!'], rest)
  | '<' :: rest => some (.less, ['<'], rest)
  | '>' :: rest => some (.greater, ['>'], rest)
  | '+' :: rest => some (.plus, ['+'], rest)
  | '-' :: rest => some (.minus, ['-'], rest)
  | '*' :: rest => some (.times, ['*'], rest)
  | '/' :: rest => some (.divide, ['/'], rest)
  | '%' :: rest => some (.remainder, ['%'], rest)
  | '(' :: rest => some (.opening, ['('], rest)
  | ')' :: rest => some (.closing, [')'], rest)
  | ',' :: rest => some (.comma, [','], rest)
  | '.' :: rest => some (.dot, ['.'], rest)
  | '?' :: rest => some (.question, ['?'], rest)
  | ':' :: rest => some (.colon, [':'], rest)
  | _ => none

/-- Whether a number starts here: with a digit, or with a point and a digit. -/
def startsNumber : List Char → Bool
  | '.' :: c :: _ => c.isDigit
  | c :: _ => c.isDigit
  | [] => false

theorem startsNumber_cons_iff {c : Char} {cs : List Char} : startsNumber (c :: cs) = true ↔
    c.isDigit = true ∨ c = '.' ∧ ∃ d tail, cs = d :: tail ∧ d.isDigit = true := by
  unfold startsNumber
  split
  · rename_i d tail heq
    obtain ⟨rfl, rfl⟩ := List.cons.inj heq
    refine ⟨fun h ↦ .inr ⟨rfl, d, tail, rfl, h⟩, ?_⟩
    rintro (h | ⟨-, d', tail', heq', h⟩)
    · cases h
    · obtain ⟨rfl, rfl⟩ := List.cons.inj heq'
      exact h
  · rename_i hpoint heq
    obtain ⟨rfl, rfl⟩ := List.cons.inj heq
    refine ⟨.inl, ?_⟩
    rintro (h | ⟨rfl, d, tail, rfl, -⟩)
    · exact h
    · exact absurd rfl (hpoint d tail rfl)
  · rename_i heq
    cases heq

/-- The characters of an exponent at the front of a text, and what follows it.  A mark without
digits behind it belongs to the next word. -/
def spanExponent : List Char → List Char × List Char
  | mark :: sign :: cs =>
    if mark = 'e' || mark = 'E' then
      if sign.isDigit then
        (mark :: (spanDigits (sign :: cs)).1, (spanDigits (sign :: cs)).2)
      else if (sign = '+' || sign = '-') && (cs.head?.any Char.isDigit) then
        (mark :: sign :: (spanDigits cs).1, (spanDigits cs).2)
      else ([], mark :: sign :: cs)
    else ([], mark :: sign :: cs)
  | cs => ([], cs)

/-- The characters of a point and the digits behind it, and what follows them. -/
def spanFraction : List Char → List Char × List Char
  | '.' :: cs => ('.' :: (spanDigits cs).1, (spanDigits cs).2)
  | cs => ([], cs)

/-- **The characters of a number at the front of a text**, and what follows it. -/
def spanNumber (cs : List Char) : List Char × List Char :=
  let whole := spanDigits cs
  let fraction := spanFraction whole.2
  let exponent := spanExponent fraction.2
  (whole.1 ++ fraction.1 ++ exponent.1, exponent.2)

/-- What a character after a backslash stands for. -/
def unescapedLetter : Char → Char
  | 'n' => '\n'
  | 't' => '\t'
  | 'r' => '\r'
  | c => c

/-- **The text up to a closing quote**, given its characters and those it was written with so far,
both in reverse: the text, the characters it was written with, and what follows the quote. -/
def spanQuoted (quote : Char) (content written : List Char) :
    List Char → Option (List Char × List Char × List Char)
  | [] => none
  | '\\' :: c :: rest => spanQuoted quote (unescapedLetter c :: content) (c :: '\\' :: written) rest
  | c :: rest =>
    if c = '\\' then none
    else if c = quote then some (content.reverse, (c :: written).reverse, rest)
    else spanQuoted quote (c :: content) (c :: written) rest

/-- A word, the characters it was read from, and what follows them. -/
structure Scanned where
  token : Token
  lexeme : List Char
  rest : List Char

/-- **The word at the front of a text** that starts at the given position. -/
def scan (position : Nat) (c : Char) (cs : List Char) : Except ExpressionError Scanned :=
  if startsNumber (c :: cs) then
    match Binary64.ofText? (spanNumber (c :: cs)).1 with
    | some x => .ok ⟨.number x, (spanNumber (c :: cs)).1, (spanNumber (c :: cs)).2⟩
    | none => .error (.invalidNumber (String.ofList (spanNumber (c :: cs)).1) position)
  else if c = '\'' || c = '"' then
    match spanQuoted c [] [c] cs with
    | some (content, lexeme, rest) => .ok ⟨.text (String.ofList content), lexeme, rest⟩
    | none => .error (.unterminated position)
  else if startsName c then
    let lexeme := c :: cs.takeWhile continuesName
    .ok ⟨.name (String.ofList lexeme), lexeme, cs.dropWhile continuesName⟩
  else
    match symbolAt? (c :: cs) with
    | some (symbol, lexeme, rest) => .ok ⟨.symbol symbol, lexeme, rest⟩
    | none => .error (.unexpected c.toString "operand or operator" position)

/-- **What is read as a word**: a number, a quoted text, a name or a symbol, each where none of
those before it could be. -/
inductive Scans (c : Char) (cs : List Char) : Scanned → Prop where
  | number {x : Binary64} (hnumber : startsNumber (c :: cs) = true)
      (hx : Binary64.ofText? (spanNumber (c :: cs)).1 = some x) :
      Scans c cs ⟨.number x, (spanNumber (c :: cs)).1, (spanNumber (c :: cs)).2⟩
  | text {content lexeme rest : List Char} (hnumber : ¬startsNumber (c :: cs) = true)
      (hquote : (c = '\'' || c = '"') = true)
      (hspan : spanQuoted c [] [c] cs = some (content, lexeme, rest)) :
      Scans c cs ⟨.text (String.ofList content), lexeme, rest⟩
  | name (hnumber : ¬startsNumber (c :: cs) = true) (hquote : ¬(c = '\'' || c = '"') = true)
      (hname : startsName c = true) :
      Scans c cs ⟨.name (String.ofList (c :: cs.takeWhile continuesName)),
        c :: cs.takeWhile continuesName, cs.dropWhile continuesName⟩
  | symbol {symbol : Symbol} {lexeme rest : List Char} (hnumber : ¬startsNumber (c :: cs) = true)
      (hquote : ¬(c = '\'' || c = '"') = true) (hname : ¬startsName c = true)
      (hsymbol : symbolAt? (c :: cs) = some (symbol, lexeme, rest)) :
      Scans c cs ⟨.symbol symbol, lexeme, rest⟩

theorem scan_eq_ok_iff {position : Nat} {c : Char} {cs : List Char} {s : Scanned} :
    scan position c cs = .ok s ↔ Scans c cs s := by
  constructor
  · intro h
    unfold scan at h
    split at h
    · rename_i hnumber
      split at h
      · rename_i x hx
        exact Except.ok.inj h ▸ .number hnumber hx
      · cases h
    · rename_i hnumber
      split at h
      · rename_i hquote
        split at h
        · rename_i content lexeme rest hspan
          exact Except.ok.inj h ▸ .text hnumber hquote hspan
        · cases h
      · rename_i hquote
        split at h
        · rename_i hname
          exact Except.ok.inj h ▸ .name hnumber hquote hname
        · rename_i hname
          split at h
          · rename_i symbol lexeme rest hsymbol
            exact Except.ok.inj h ▸ .symbol hnumber hquote hname hsymbol
          · cases h
  · intro h
    cases h with
    | number hnumber hx => rw [scan, if_pos hnumber, hx]
    | text hnumber hquote hspan => rw [scan, if_neg hnumber, if_pos hquote, hspan]
    | name hnumber hquote hname => rw [scan, if_neg hnumber, if_neg hquote, if_pos hname]
    | symbol hnumber hquote hname hsymbol =>
      rw [scan, if_neg hnumber, if_neg hquote, if_neg hname, hsymbol]

/-! ## Nothing is lost -/

theorem spanDigits_append (cs : List Char) : (spanDigits cs).1 ++ (spanDigits cs).2 = cs :=
  List.takeWhile_append_dropWhile

theorem spanFraction_append (cs : List Char) : (spanFraction cs).1 ++ (spanFraction cs).2 = cs := by
  unfold spanFraction
  split
  · simp [spanDigits_append]
  · rfl

theorem spanExponent_append (cs : List Char) : (spanExponent cs).1 ++ (spanExponent cs).2 = cs := by
  unfold spanExponent
  split
  · split
    · split
      · simp [spanDigits_append]
      · split
        · simp [spanDigits_append]
        · rfl
    · rfl
  · rfl

theorem spanNumber_append (cs : List Char) : (spanNumber cs).1 ++ (spanNumber cs).2 = cs := by
  simp only [spanNumber, List.append_assoc]
  rw [spanExponent_append, spanFraction_append, spanDigits_append]

theorem spanQuoted_append {quote : Char} {content written cs text lexeme rest : List Char}
    (h : spanQuoted quote content written cs = some (text, lexeme, rest)) :
    lexeme ++ rest = written.reverse ++ cs ∧ lexeme ≠ [] := by
  fun_induction spanQuoted quote content written cs with
  | case1 => simp at h
  | case2 content written c rest ih =>
    obtain ⟨h₁, h₂⟩ := ih h
    exact ⟨by simpa using h₁, h₂⟩
  | case3 => simp at h
  | case4 =>
    simp only [Option.some.injEq, Prod.mk.injEq] at h
    obtain ⟨rfl, rfl, rfl⟩ := h
    simp
  | case5 content written c rest _ _ _ ih =>
    obtain ⟨h₁, h₂⟩ := ih h
    exact ⟨by simpa using h₁, h₂⟩

theorem symbolAt?_append {cs lexeme rest : List Char} {symbol : Symbol}
    (h : symbolAt? cs = some (symbol, lexeme, rest)) : lexeme ++ rest = cs ∧ lexeme ≠ [] := by
  unfold symbolAt? at h
  split at h <;>
    first
    | (simp only [Option.some.injEq, Prod.mk.injEq] at h; obtain ⟨-, rfl, rfl⟩ := h; simp)
    | simp at h

/-- **What a word is read from and what follows it are the whole text**, and a word is read from
something. -/
theorem scan_append {position : Nat} {c : Char} {cs : List Char} {s : Scanned}
    (h : scan position c cs = .ok s) : s.lexeme ++ s.rest = c :: cs ∧ s.lexeme ≠ [] := by
  cases scan_eq_ok_iff.1 h with
  | number hnumber hx =>
    refine ⟨spanNumber_append (c :: cs), fun hnil ↦ ?_⟩
    rw [show (spanNumber (c :: cs)).1 = [] from hnil] at hx
    simp [show Binary64.ofText? [] = none by decide] at hx
  | text hnumber hquote hspan => simpa using spanQuoted_append hspan
  | name => simp [List.takeWhile_append_dropWhile]
  | symbol hnumber hquote hname hsymbol => exact symbolAt?_append hsymbol

theorem scan_rest_lt {position : Nat} {c : Char} {cs : List Char} {s : Scanned}
    (h : scan position c cs = .ok s) : s.rest.length < (c :: cs).length := by
  obtain ⟨happ, hne⟩ := scan_append h
  rw [← happ, List.length_append]
  have := List.length_pos_iff.2 hne
  omega

/-! ## Whole texts -/

/-- The words of a text that starts at the given position, given those before it in reverse, and
the position where the text ends. -/
def tokensFrom (position : Nat) (read : List Placed) (cs : List Char) :
    Except ExpressionError (List Placed × Nat) :=
  match cs with
  | [] => .ok (read.reverse, position)
  | c :: cs =>
    if isSeparator c then tokensFrom (position + 1) read cs
    else
      match _h : scan position c cs with
      | .error e => .error e
      | .ok s => tokensFrom (position + byteLength s.lexeme) (⟨s.token, position⟩ :: read) s.rest
termination_by cs.length
decreasing_by
  · simp
  · exact scan_rest_lt _h

/-- **The words of an expression** and the position where its text ends.  There is at least one. -/
def tokens (cs : List Char) : Except ExpressionError (List Placed × Nat) :=
  match tokensFrom 0 [] cs with
  | .ok ([], _) => .error .empty
  | result => result

end ReactiveForm
