import Mathlib.Data.List.TakeWhile
import ReactiveForm.Expression.Lexer

/-!
# The text of a number

What an expression takes for a number is digits, a point with or without digits behind it, and an
exponent, of which a mark that no digits follow is no part (`IsFraction`, `IsExponent`).  Two things
follow from the shape of the text alone.  The text of a number is taken whole when nothing comes
behind it (`spanNumber_self`), so it does not matter where it has been cut off.  And it is always
one that the reader of numbers takes, which asks for digits on one side of the point and for digits
in the exponent (`isSome_ofText?_spanNumber`).
-/

set_option autoImplicit false
namespace ReactiveForm

/-! ## The parts of a number

The scanner takes the parts one after the other and each as far as it goes.  What it has taken for a
part has the shape of that part, and a part of such a shape ends where the next one may begin. -/

/-- A text that a number can have behind its whole digits: nothing, or a point and digits. -/
inductive IsFraction : List Char → Prop where
  | none : IsFraction []
  | point {ds : List Char} (hdigits : ∀ c ∈ ds, c.isDigit = true) : IsFraction ('.' :: ds)

/-- A text that a number can end with: nothing, or a mark, a sign perhaps, and digits. -/
inductive IsExponent : List Char → Prop where
  | none : IsExponent []
  | unsigned {mark d : Char} {ds : List Char} (hmark : mark = 'e' ∨ mark = 'E')
      (hdigits : ∀ c ∈ d :: ds, c.isDigit = true) : IsExponent (mark :: d :: ds)
  | signed {mark sign d : Char} {ds : List Char} (hmark : mark = 'e' ∨ mark = 'E')
      (hsign : sign = '+' ∨ sign = '-') (hdigits : ∀ c ∈ d :: ds, c.isDigit = true) :
      IsExponent (mark :: sign :: d :: ds)

section

variable {ds whole fraction exponent cs : List Char}

theorem isDigit_of_mem_spanDigits {c : Char} (h : c ∈ (spanDigits cs).1) : c.isDigit = true :=
  List.mem_takeWhile_imp h

/-- Digits are taken up to what is none. -/
theorem spanDigits_append_of (hdigits : ∀ c ∈ ds, c.isDigit = true)
    (hcs : ∀ c ∈ cs.head?, c.isDigit = false) : spanDigits (ds ++ cs) = (ds, cs) := by
  have htake : cs.takeWhile Char.isDigit = [] ∧ cs.dropWhile Char.isDigit = cs := by
    cases cs with
    | nil => exact ⟨rfl, rfl⟩
    | cons c cs =>
      have hc := hcs c rfl
      exact ⟨List.takeWhile_cons_of_neg (by simp [hc]), List.dropWhile_cons_of_neg (by simp [hc])⟩
  rw [spanDigits, List.takeWhile_append_of_pos hdigits, List.dropWhile_append_of_pos hdigits,
    htake.1, htake.2, List.append_nil]

theorem spanDigits_self (hdigits : ∀ c ∈ ds, c.isDigit = true) : spanDigits ds = (ds, []) := by
  have hnil : ∀ c ∈ ([] : List Char).head?, c.isDigit = false := by simp
  simpa using spanDigits_append_of hdigits hnil

/-- What is taken for a fraction is one. -/
theorem isFraction_spanFraction (cs : List Char) : IsFraction (spanFraction cs).1 := by
  unfold spanFraction
  split
  · exact .point fun _ ↦ isDigit_of_mem_spanDigits
  · exact .none

/-- What is taken for an exponent is one: a mark without digits behind it is left alone. -/
theorem isExponent_spanExponent (cs : List Char) : IsExponent (spanExponent cs).1 := by
  unfold spanExponent
  split
  · rename_i mark sign cs
    split
    · rename_i hmark
      simp only [Bool.or_eq_true, decide_eq_true_eq] at hmark
      -- behind the mark there is a digit at once, or a sign and a digit, or no exponent at all
      split
      · rename_i hsign
        have hspan : (spanDigits (sign :: cs)).1 = sign :: cs.takeWhile Char.isDigit :=
          List.takeWhile_cons_of_pos hsign
        dsimp only
        rw [hspan]
        exact .unsigned hmark fun _ hc ↦ isDigit_of_mem_spanDigits (hspan ▸ hc)
      · split
        · rename_i hsign
          simp only [Bool.and_eq_true, Bool.or_eq_true, decide_eq_true_eq] at hsign
          obtain ⟨hsign, hdigit⟩ := hsign
          match cs, hdigit with
          | d :: cs, hd =>
            have hspan : (spanDigits (d :: cs)).1 = d :: cs.takeWhile Char.isDigit :=
              List.takeWhile_cons_of_pos hd
            dsimp only
            rw [hspan]
            exact .signed hmark hsign fun _ hc ↦ isDigit_of_mem_spanDigits (hspan ▸ hc)
        · exact .none
    · exact .none
  · exact .none

/-- No exponent begins with a digit or a point. -/
theorem IsExponent.head (h : IsExponent exponent) :
    ∀ c ∈ exponent.head?, c.isDigit = false ∧ c ≠ '.' := by
  cases h with
  | none => simp
  | unsigned hmark | signed hmark =>
    intro c hc
    obtain rfl := Option.some.inj hc
    rcases hmark with rfl | rfl <;> decide

/-- Behind the whole digits no digit comes, so they end there. -/
theorem IsFraction.head_append (hfraction : IsFraction fraction) (hexponent : IsExponent exponent) :
    ∀ c ∈ (fraction ++ exponent).head?, c.isDigit = false := by
  cases hfraction with
  | none => exact fun c hc ↦ (hexponent.head c hc).1
  | point =>
    intro c hc
    obtain rfl := Option.some.inj hc
    decide

/-! ## The text is taken whole

A scanner that gets the parts of a number and nothing behind them stops at the end of each part for
the reason that the next one begins there. -/

/-- A fraction is taken up to the exponent. -/
theorem spanFraction_append_of (hfraction : IsFraction fraction) (hexponent : IsExponent exponent) :
    spanFraction (fraction ++ exponent) = (fraction, exponent) := by
  cases hfraction with
  | none =>
    rw [List.nil_append]
    unfold spanFraction
    split
    · exact absurd rfl (hexponent.head _ rfl).2
    · rfl
  | point hdigits =>
    rw [List.cons_append, spanFraction,
      spanDigits_append_of hdigits fun c hc ↦ (hexponent.head c hc).1]

/-- An exponent is taken whole. -/
theorem spanExponent_self (h : IsExponent exponent) : spanExponent exponent = (exponent, []) := by
  cases h with
  | none => rfl
  | @unsigned mark d ds hmark hdigits =>
    rw [spanExponent, if_pos (by simpa using hmark), if_pos (hdigits d List.mem_cons_self),
      spanDigits_self hdigits]
  | @signed mark sign d ds hmark hsign hdigits =>
    have hnone : ¬sign.isDigit = true := by rcases hsign with rfl | rfl <;> decide
    rw [spanExponent, if_pos (by simpa using hmark), if_neg hnone, if_pos, spanDigits_self hdigits]
    simpa using ⟨hsign, hdigits d List.mem_cons_self⟩

/-- Parts in their order are one number. -/
theorem spanNumber_append_parts (hwhole : ∀ c ∈ whole, c.isDigit = true)
    (hfraction : IsFraction fraction) (hexponent : IsExponent exponent) :
    spanNumber (whole ++ fraction ++ exponent) = (whole ++ fraction ++ exponent, []) := by
  have hdigits := spanDigits_append_of hwhole (hfraction.head_append hexponent)
  rw [← List.append_assoc] at hdigits
  rw [spanNumber, hdigits]
  dsimp only
  rw [spanFraction_append_of hfraction hexponent]
  dsimp only
  rw [spanExponent_self hexponent]

/-- **The text of a number is a number**, all of it. -/
theorem spanNumber_self (cs : List Char) :
    spanNumber (spanNumber cs).1 = ((spanNumber cs).1, []) :=
  spanNumber_append_parts (fun _ ↦ isDigit_of_mem_spanDigits) (isFraction_spanFraction _)
    (isExponent_spanExponent _)

/-! ## The text can be read

The reader of numbers scans its text anew.  It finds the same parts, for it goes by the same shapes;
what it asks for besides are digits somewhere, and those are there because a number has started. -/

/-- Numerals are scanned for the parts that the numbers of expressions have. -/
theorem Numeral.scan_eq (cs : List Char) :
    Numeral.scan cs =
      match Numeral.exponent? (spanFraction (spanDigits cs).2).2 with
      | some (exponent, rest) =>
        (⟨(spanDigits cs).1, (spanFraction (spanDigits cs).2).1.tail, exponent⟩, rest)
      | none =>
        (⟨(spanDigits cs).1, (spanFraction (spanDigits cs).2).1.tail, 0⟩,
          (spanFraction (spanDigits cs).2).2) := by
  rw [Numeral.scan]
  dsimp only
  generalize (spanDigits cs).2 = rest
  by_cases hpoint : ∃ behind, rest = '.' :: behind
  · obtain ⟨behind, rfl⟩ := hpoint
    rfl
  · have hother : ∀ behind, rest = '.' :: behind → False := fun behind h ↦ hpoint ⟨behind, h⟩
    simp only [spanFraction]
    rfl

/-- Digits behind the mark are an exponent, up to their end. -/
theorem Numeral.exponent?_of_digits {mark d : Char} (hmark : mark = 'e' ∨ mark = 'E')
    (hdigits : ∀ c ∈ d :: ds, c.isDigit = true) :
    Numeral.exponent? (mark :: d :: ds) = some ((natOfDigits (d :: ds) : Int), []) := by
  have hd := hdigits d List.mem_cons_self
  have hmark : (decide (mark = 'e') || decide (mark = 'E')) = true := by simpa using hmark
  unfold Numeral.exponent?
  simp only [hmark, if_true]
  split
  · rename_i heq
    obtain ⟨rfl, -⟩ := List.cons.inj heq
    exact absurd hd (by decide)
  · rename_i heq
    obtain ⟨rfl, -⟩ := List.cons.inj heq
    exact absurd hd (by decide)
  · rw [spanDigits_self hdigits]
    rfl

/-- Nothing is left of the exponent of a number. -/
theorem Numeral.exponent?_of_isExponent (h : IsExponent exponent) :
    exponent = [] ∨ ∃ n, Numeral.exponent? exponent = some (n, []) := by
  cases h with
  | none => exact .inl rfl
  | unsigned hmark hdigits => exact .inr ⟨_, Numeral.exponent?_of_digits hmark hdigits⟩
  | @signed mark sign d ds hmark hsign hdigits =>
    have hmark : (decide (mark = 'e') || decide (mark = 'E')) = true := by simpa using hmark
    refine .inr ?_
    unfold Numeral.exponent?
    simp only [hmark, if_true]
    rcases hsign with rfl | rfl
    · simp only [spanDigits_self hdigits]
      exact ⟨_, rfl⟩
    · simp only [spanDigits_self hdigits]
      exact ⟨_, rfl⟩

/-- The parts of a number are one numeral, with the digits that they have. -/
theorem Numeral.scan_append_parts (hwhole : ∀ c ∈ whole, c.isDigit = true)
    (hfraction : IsFraction fraction) (hexponent : IsExponent exponent) :
    ∃ n, Numeral.scan (whole ++ (fraction ++ exponent)) = (n, []) ∧ n.whole = whole ∧
      n.fraction = fraction.tail := by
  rw [Numeral.scan_eq, spanDigits_append_of hwhole (hfraction.head_append hexponent)]
  dsimp only
  rw [spanFraction_append_of hfraction hexponent]
  dsimp only
  rcases Numeral.exponent?_of_isExponent hexponent with rfl | ⟨n, hn⟩
  · exact ⟨_, rfl, rfl, rfl⟩
  · rw [hn]
    exact ⟨_, rfl, rfl, rfl⟩

/-- Where a number starts there are digits, before the point or behind it. -/
theorem digits_of_startsNumber (h : startsNumber cs = true) :
    (spanDigits cs).1 ≠ [] ∨ (spanFraction (spanDigits cs).2).1.tail ≠ [] := by
  cases cs with
  | nil => cases h
  | cons c cs =>
    rcases startsNumber_cons_iff.1 h with hc | ⟨rfl, d, tail, rfl, hd⟩
    · refine .inl ?_
      rw [spanDigits]
      simp [hc]
    · have hpoint : spanDigits ('.' :: d :: tail) = ([], '.' :: d :: tail) := rfl
      refine .inr ?_
      rw [hpoint, spanFraction, spanDigits]
      simp [hd]

/-- A number starts with what its text starts with: a digit or a point. -/
theorem head_of_startsNumber (h : startsNumber cs = true) :
    ∀ c ∈ cs.head?, c.isDigit = true ∨ c = '.' := by
  cases cs with
  | nil => cases h
  | cons c cs =>
    intro c' hc
    obtain rfl := Option.some.inj hc
    exact (startsNumber_cons_iff.1 h).imp_right And.left

/-- **Where a number starts, one is read.** -/
theorem isSome_ofText?_spanNumber (h : startsNumber cs = true) :
    (Binary64.ofText? (spanNumber cs).1).isSome = true := by
  obtain ⟨n, hscan, hwhole, hfraction⟩ := Numeral.scan_append_parts
    (fun _ hc ↦ isDigit_of_mem_spanDigits hc) (isFraction_spanFraction (spanDigits cs).2)
    (isExponent_spanExponent (spanFraction (spanDigits cs).2).2)
  -- the digits that the reader asks for are those with which the number started
  have hdigits := digits_of_startsNumber h
  rw [← hwhole, ← hfraction] at hdigits
  rw [← List.append_assoc] at hscan
  change Numeral.scan (spanNumber cs).1 = (n, []) at hscan
  cases htext : (spanNumber cs).1 with
  | nil =>
    rw [htext] at hscan
    obtain rfl : (⟨[], [], 0⟩ : Numeral) = n := (Prod.mk.inj hscan).1
    simp at hdigits
  | cons c tail =>
    have hc : c ∈ cs.head? := by
      rw [← spanNumber_append cs, htext]
      rfl
    rw [htext] at hscan
    refine Binary64.isSome_ofText? (head_of_startsNumber h c hc) ?_ ?_
    · rw [hscan]
    · rwa [hscan]

end

end ReactiveForm
