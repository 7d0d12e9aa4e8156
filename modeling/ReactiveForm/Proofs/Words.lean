import ReactiveForm.Proofs.Reading

/-!
# Texts as words and separators

The word at the front of a text does not depend on where the text starts, except that a fault tells
the place.  So what a text is cut into can be told without positions: words, and the separators
between them, which no grammar knows of but which the inference of dependencies can see (`Cut`).  A
text is cut in at most one way, and exactly if its words can be told apart without a fault.

With the grammar this gives what a text of an expression is: one that is not too long and is cut
into words that derive the tree with nesting in the limit (`exprOfText_eq_ok_iff`).
-/

set_option autoImplicit false
namespace ReactiveForm

/-- A word is read wherever it stands. -/
theorem scan_eq_ok {position : Nat} {c : Char} {cs : List Char} {s : Scanned}
    (h : scan position c cs = .ok s) (position' : Nat) : scan position' c cs = .ok s :=
  scan_eq_ok_iff.2 (scan_eq_ok_iff.1 h)

/-! ## Words and separators -/

/-- **A piece of a text**: a separator or a word. -/
inductive Piece where
  | separator
  | word (t : Token)

/-- The words among some pieces. -/
def tokensOf : List Piece → List Token
  | [] => []
  | .separator :: ps => tokensOf ps
  | .word t :: ps => t :: tokensOf ps

theorem tokensOf_append (ps ps' : List Piece) :
    tokensOf (ps ++ ps') = tokensOf ps ++ tokensOf ps' := by
  induction ps with
  | nil => rfl
  | cons p ps ih =>
    cases p with
    | separator => exact ih
    | word t => exact congrArg (t :: ·) ih

/-- **A text is cut into pieces**, each word being the one at the front of what is left. -/
inductive Cut : List Char → List Piece → Prop where
  | nil : Cut [] []
  | separator {c : Char} {cs : List Char} {ps : List Piece} (hc : isSeparator c = true)
      (h : Cut cs ps) : Cut (c :: cs) (.separator :: ps)
  | word {position : Nat} {c : Char} {cs lexeme rest : List Char} {t : Token} {ps : List Piece}
      (hc : isSeparator c = false) (hscan : scan position c cs = .ok ⟨t, lexeme, rest⟩)
      (h : Cut rest ps) : Cut (c :: cs) (.word t :: ps)

namespace Cut

variable {cs : List Char} {ps ps' : List Piece} {position finish : Nat} {read ts : List Placed}

theorem unique (h : Cut cs ps) (h' : Cut cs ps') : ps = ps' := by
  induction h generalizing ps' with
  | nil =>
    cases h'
    rfl
  | separator hc _ ih =>
    cases h' with
    | separator _ h' => rw [ih h']
    | word hc' => rw [hc] at hc'; cases hc'
  | word hc hscan _ ih =>
    cases h' with
    | separator hc' => rw [hc] at hc'; cases hc'
    | word _ hscan' h' =>
      cases (scan_eq_ok hscan _).symm.trans hscan'
      rw [ih h']

/-- Where the words can be told apart, they are those of the pieces. -/
theorem exists_of_tokensFrom (h : tokensFrom position read cs = .ok (ts, finish)) :
    ∃ ps placed, Cut cs ps ∧ ts = read.reverse ++ placed ∧
      placed.map (·.token) = tokensOf ps := by
  fun_induction tokensFrom position read cs with
  | case1 position read =>
    obtain ⟨rfl, -⟩ := Prod.mk.inj (Except.ok.inj h)
    exact ⟨[], [], .nil, (List.append_nil _).symm, rfl⟩
  | case2 position read c cs hc ih =>
    obtain ⟨ps, placed, hcut, hts, htokens⟩ := ih h
    exact ⟨.separator :: ps, placed, .separator hc hcut, hts, htokens⟩
  | case3 => cases h
  | case4 position read c cs hc s hscan ih =>
    obtain ⟨ps, placed, hcut, rfl, htokens⟩ := ih h
    refine ⟨.word s.token :: ps, ⟨s.token, position⟩ :: placed,
      .word (eq_false_of_ne_true hc) hscan hcut, by simp, ?_⟩
    rw [List.map_cons, htokens, tokensOf]

/-- The words of a text that can be cut are told apart. -/
theorem exists_tokensFrom (h : Cut cs ps) (position : Nat) (read : List Placed) :
    ∃ placed finish, tokensFrom position read cs = .ok (read.reverse ++ placed, finish) ∧
      placed.map (·.token) = tokensOf ps := by
  induction h generalizing position read with
  | nil => exact ⟨[], position, by rw [tokensFrom, List.append_nil], rfl⟩
  | separator hc _ ih =>
    rw [tokensFrom, if_pos hc]
    exact ih (position + 1) read
  | @word _ c cs lexeme rest t ps hc hscan _ ih =>
    obtain ⟨placed, finish, hrest, htokens⟩ :=
      ih (position + byteLength lexeme) (⟨t, position⟩ :: read)
    refine ⟨⟨t, position⟩ :: placed, finish, ?_, by rw [List.map_cons, htokens, tokensOf]⟩
    have hhere := scan_eq_ok hscan position
    rw [tokensFrom, if_neg (ne_true_of_eq_false hc)]
    split
    · rename_i hfault
      rw [hhere] at hfault
      cases hfault
    · rename_i s hs
      cases hhere.symm.trans hs
      rw [hrest, List.reverse_cons, List.append_assoc]
      rfl

end Cut

/-- The words of a text are those of the pieces it is cut into, of which one at least is a word. -/
theorem tokens_eq_ok {cs : List Char} {ts : List Placed} {finish : Nat} :
    tokens cs = .ok (ts, finish) ↔ tokensFrom 0 [] cs = .ok (ts, finish) ∧ ts ≠ [] := by
  unfold tokens
  split
  · rename_i hempty
    rw [hempty]
    constructor
    · rintro ⟨⟩
    · rintro ⟨h, hne⟩
      exact absurd (Prod.mk.inj (Except.ok.inj h)).1.symm hne
  · rename_i hempty
    refine ⟨fun h ↦ ⟨h, ?_⟩, And.left⟩
    rintro rfl
    exact hempty finish h

/-- **What the text of an expression is**: it is not too long, and it is cut into words that derive
the tree, nesting within the limit. -/
theorem exprOfText_eq_ok_iff {source : String} {e : Expr} :
    exprOfText source = .ok e ↔ source.utf8ByteSize ≤ maxExpressionBytes ∧
      ∃ ps, Cut source.toList ps ∧
        ∃ depth ≤ maxNesting, Phrase .conditional 0 depth (tokensOf ps) e := by
  by_cases hsize : maxExpressionBytes < source.utf8ByteSize
  · refine ⟨fun h ↦ ?_, fun h ↦ absurd hsize (Nat.not_lt_of_le h.1)⟩
    rw [exprOfText, if_pos hsize] at h
    cases h
  have hrun : exprOfText source =
      tokens source.toList >>= fun words ↦ exprOfTokens words.2 words.1 := by
    rw [exprOfText, if_neg hsize]
  rw [hrun]
  constructor
  · intro h
    obtain ⟨⟨ts, finish⟩, hwords, hread⟩ := exists_of_bind_eq_ok h
    obtain ⟨ps, placed, hcut, rfl, htokens⟩ := Cut.exists_of_tokensFrom (tokens_eq_ok.1 hwords).1
    obtain ⟨depth, hdepth, hphrase⟩ := exists_phrase_of_exprOfTokens hread
    refine ⟨Nat.le_of_not_lt hsize, ps, hcut, depth, hdepth, ?_⟩
    rwa [← htokens]
  · rintro ⟨-, ps, hcut, depth, hdepth, hphrase⟩
    obtain ⟨placed, finish, hfrom, htokens⟩ := hcut.exists_tokensFrom 0 []
    have hne : placed ≠ [] := by
      rintro rfl
      obtain ⟨t, tail, hused, -⟩ := hphrase.starts
      rw [← htokens] at hused
      cases hused
    rw [tokens_eq_ok.2 ⟨hfrom, hne⟩]
    exact (hphrase.comesTo_exprOfTokens htokens).eq_target hdepth

end ReactiveForm
