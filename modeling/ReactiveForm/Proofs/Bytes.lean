import ReactiveForm.Expression.Bytes
import ReactiveForm.Proofs.Quotation

/-!
# Reading by bytes finds the same words

The reading with an offset into the bytes of a text always has a result, and it is that of the
reading by characters (`wordsOfBytes_eq`): no slice begins or ends in the middle of a character, and
every word takes at least one byte.

The reading by bytes has two ways to go wrong that the reading by characters does not have: it could
cut a text inside a character, and it could take a byte in the middle of a character for one of its
own.  That it does neither comes from three facts.

* **Offsets are places between characters.**  The offset is at all times the length in bytes of the
  characters it has passed, so every lemma here is about an offset `byteLength before`, in a text
  that is split into `before` and what follows.
* **Only ASCII is asked for.**  All classes of characters that the reading asks about have ASCII
  characters only (`IsAscii`), and the first byte of any other character belongs to none of them
  (`shown_cases`).  So a byte at such an offset answers like the character that begins there.
* **Steps of one byte are taken over ASCII.**  A byte further ahead is looked at only behind a
  character that has been found to be ASCII, which makes it one at such an offset again
  (`byteAt?_ascii`).

## What is here

A lemma for each function of the reading by bytes says where it stops, as the length of what its
counterpart takes: `runEnd_byteLength`, `fractionEnd_byteLength`, `exponentEnd_byteLength`,
`numberEnd_byteLength`, `textBefore?_of_spanQuoted`, `symbolOf?_eq`.  From these a word is read as
by characters (`wordAt_eq`), and by induction a text (`wordsFrom_eq`).
-/

set_option autoImplicit false
namespace ReactiveForm

/-! ## Characters and their first bytes -/

/-- What a reading by bytes sees of a character: its first byte. -/
def shown (c : Char) : Char := .ofUInt8 ((String.utf8EncodeChar c).headD 0)

/-- A class that only has ASCII characters. -/
def IsAscii (p : Char → Bool) : Prop := ∀ c, p c = true → c.toNat < 128

section

variable {c ascii : Char} {p : Char → Bool}

/-- ASCII characters are one byte long. -/
theorem utf8Size_of_lt (h : c.toNat < 128) : c.utf8Size = 1 :=
  Char.utf8Size_eq_one_iff.2 (UInt32.le_iff_toNat_le.2 (Nat.le_of_lt_succ h))

/-- **A character is seen as it is, or as one beyond ASCII**, which it is then itself. -/
theorem shown_cases (c : Char) :
    c.toNat < 128 ∧ shown c = c ∨ 128 ≤ c.toNat ∧ 128 ≤ (shown c).toNat := by
  have hbyte (b : UInt8) : (Char.ofUInt8 b).toNat = b.toNat := UInt8.toNat_toUInt32 b
  rcases utf8EncodeChar_cases c with ⟨hlt, hc⟩ | hlarge
  · refine .inl ⟨hlt, Char.toNat_inj.1 ?_⟩
    rw [shown, hc, List.headD_cons, hbyte, UInt32.toNat_toUInt8]
    exact Nat.mod_eq_of_lt (Nat.lt_trans hlt (by decide))
  · obtain ⟨b, tail, hc, -⟩ := exists_utf8EncodeChar_eq_cons c
    refine .inr ⟨Nat.le_of_not_lt fun hlt ↦ ?_, ?_⟩
    · -- the only byte of an ASCII character is its own number
      have hown := hlarge c.val.toUInt8
        (by rw [String.utf8EncodeChar_eq_singleton (utf8Size_of_lt hlt)]; simp)
      rw [UInt32.toNat_toUInt8, Char.toNat_val] at hown
      omega
    · rw [shown, hc, List.headD_cons, hbyte]
      exact hlarge b (hc ▸ List.mem_cons_self)

theorem shown_of_lt (h : c.toNat < 128) : shown c = c := by
  rcases shown_cases c with ⟨-, heq⟩ | ⟨hle, -⟩
  · exact heq
  · omega

/-- **A class of ASCII characters does not tell a character from its first byte.** -/
theorem IsAscii.shown (h : IsAscii p) (c : Char) : p (shown c) = p c := by
  rcases shown_cases c with ⟨-, heq⟩ | ⟨hle, hle'⟩
  · rw [heq]
  · have hfalse : ∀ d : Char, 128 ≤ d.toNat → p d = false := fun d hd ↦
      eq_false_of_ne_true fun hp ↦ absurd (h d hp) (Nat.not_lt_of_le hd)
    rw [hfalse _ hle', hfalse _ hle]

/-- An ASCII character is recognised by its byte. -/
theorem shown_eq_iff (h : ascii.toNat < 128) : shown c = ascii ↔ c = ascii := by
  have hp : IsAscii (· == ascii) := fun d hd ↦ eq_of_beq hd ▸ h
  simpa using hp.shown c

theorem isAscii_isDigit : IsAscii Char.isDigit := fun c hc ↦
  Nat.lt_of_le_of_lt (Char.isDigit_iff_toNat.1 hc).2 (by decide)

theorem isAscii_isAlphanum : IsAscii Char.isAlphanum := by
  intro c hc
  rcases Bool.or_eq_true_iff.1 hc with hletter | hdigit
  · rcases Bool.or_eq_true_iff.1 hletter with hupper | hlower
    · have hle : c.val ≤ 'Z'.val := (of_decide_eq_true hupper).2
      exact Nat.lt_of_le_of_lt (UInt32.le_iff_toNat_le.1 hle) (by decide)
    · have hle : c.val ≤ 'z'.val := of_decide_eq_true (Bool.and_eq_true_iff.1 hlower).2
      exact Nat.lt_of_le_of_lt (UInt32.le_iff_toNat_le.1 hle) (by decide)
  · exact isAscii_isDigit c hdigit

/-- Names are made of ASCII characters. -/
theorem isAscii_continuesName : IsAscii continuesName := by
  intro c hc
  simp only [continuesName, Bool.or_eq_true, decide_eq_true_eq] at hc
  rcases hc with (hc | rfl) | rfl
  · exact isAscii_isAlphanum c hc
  · decide
  · decide

theorem isAscii_startsName : IsAscii startsName := fun c hc ↦
  isAscii_continuesName c (continuesName_of_startsName hc)

theorem isAscii_isSeparator : IsAscii isSeparator := by
  intro c hc
  simp only [isSeparator, Bool.or_eq_true, decide_eq_true_eq] at hc
  rcases hc with ((rfl | rfl) | rfl) | rfl <;> decide

end

/-! ## Looking at the bytes of a text -/

section

variable {c : Char} {p : Char → Bool} {before passed cs : List Char} {bytes : List UInt8}
  {offset : Nat}

/-- ASCII characters are as many bytes as characters. -/
theorem byteLength_append_ascii (h : ∀ c ∈ passed, c.toNat < 128) (before : List Char) :
    byteLength (before ++ passed) = byteLength before + passed.length := by
  rw [byteLength_append]
  congr 1
  rw [byteLength_eq]
  induction passed with
  | nil => rfl
  | cons c passed ih =>
    obtain ⟨hc, hpassed⟩ := List.forall_mem_cons.1 h
    rw [String.utf8Len_cons, ih hpassed, utf8Size_of_lt hc, List.length_cons]

/-- **At the offset behind some characters the next one is seen.** -/
theorem byteAt?_byteLength (before cs : List Char) :
    byteAt? (utf8 (before ++ cs)) (byteLength before) = cs.head?.map shown := by
  rw [byteAt?, utf8_append, ← length_utf8, List.getElem?_append_right (Nat.le_refl _),
    Nat.sub_self]
  cases cs with
  | nil => rfl
  | cons c cs =>
    obtain ⟨b, tail, hc, -⟩ := exists_utf8EncodeChar_eq_cons c
    rw [utf8_cons, List.head?_cons, Option.map_some, shown, hc]
    rfl

/-- Behind some ASCII characters the one after them is seen, at an offset that counts them. -/
theorem byteAt?_ascii (h : ∀ c ∈ passed, c.toNat < 128) (before cs : List Char) :
    byteAt? (utf8 (before ++ (passed ++ cs))) (byteLength before + passed.length) =
      cs.head?.map shown := by
  rw [← byteLength_append_ascii h, ← List.append_assoc]
  exact byteAt?_byteLength (before ++ passed) cs

/-- At the end of the text every run ends. -/
theorem runEnd_of_none (h : byteAt? bytes offset = none) : runEnd bytes p offset = offset := by
  rw [byteAt?, Option.map_eq_none_iff] at h
  rw [runEnd]
  split
  · rfl
  · rename_i hb
    rw [h] at hb
    cases hb

/-- Elsewhere it goes on for as long as the bytes are of the class. -/
theorem runEnd_of_some (h : byteAt? bytes offset = some c) :
    runEnd bytes p offset = if p c then runEnd bytes p (offset + 1) else offset := by
  obtain ⟨b, hb, rfl⟩ := Option.map_eq_some_iff.1 h
  rw [runEnd]
  split
  · rename_i hnone
    rw [hb] at hnone
    cases hnone
  · rename_i b' hb'
    obtain rfl := Option.some.inj (hb.symm.trans hb')
    rfl

/-- **A run ends behind the characters of its class.** -/
theorem runEnd_byteLength (hp : IsAscii p) (before cs : List Char) :
    runEnd (utf8 (before ++ cs)) p (byteLength before) =
      byteLength (before ++ cs.takeWhile p) := by
  induction cs generalizing before with
  | nil =>
    rw [List.takeWhile_nil, runEnd_of_none (by rw [byteAt?_byteLength]; rfl), List.append_nil]
  | cons c cs ih =>
    rw [runEnd_of_some (c := shown c) (by rw [byteAt?_byteLength]; rfl), hp.shown]
    by_cases hc : p c = true
    · have hrest := ih (before ++ [c])
      rw [byteLength_append_ascii (List.forall_mem_singleton.2 (hp c hc)), List.append_assoc,
        List.append_assoc] at hrest
      rw [if_pos hc, List.takeWhile_cons_of_pos hc]
      exact hrest
    · rw [if_neg hc, List.takeWhile_cons_of_neg hc, List.append_nil]

/-- A run behind some ASCII characters. -/
theorem runEnd_ascii (h : ∀ c ∈ passed, c.toNat < 128) (hp : IsAscii p) (before cs : List Char) :
    runEnd (utf8 (before ++ (passed ++ cs))) p (byteLength before + passed.length) =
      byteLength (before ++ (passed ++ cs.takeWhile p)) := by
  rw [← byteLength_append_ascii h, ← List.append_assoc, ← List.append_assoc]
  exact runEnd_byteLength hp (before ++ passed) cs

end

/-! ## Numbers

An exponent is what makes numbers intricate: whether its mark belongs to the number depends on the
one or two characters behind it, and if it does not, the number ends before the mark. -/

section

variable {before cs : List Char} {bytes : List UInt8} {start : Nat} {mark sign : Char}

/-- The next byte is that of an ASCII character if this is the next character. -/
theorem map_shown_eq_some_iff (ascii : Char) (h : ascii.toNat < 128) (cs : List Char) :
    cs.head?.map shown = some ascii ↔ ∃ rest, cs = ascii :: rest := by
  cases cs with
  | nil => simp
  | cons c cs => simp [shown_eq_iff h]

theorem any_shown {p : Char → Bool} (hp : IsAscii p) (cs : List Char) :
    (cs.head?.map shown).any p = cs.head?.any p := by
  cases cs with
  | nil => rfl
  | cons c cs => exact hp.shown c

/-- **The end of a fraction**: a point and the digits behind it, of which there may be none. -/
theorem fractionEnd_byteLength (before cs : List Char) :
    fractionEnd (utf8 (before ++ cs)) (byteLength before) =
      byteLength (before ++ (spanFraction cs).1) := by
  have hpoint := map_shown_eq_some_iff '.' (by decide) cs
  rw [← byteAt?_byteLength before] at hpoint
  by_cases h : ∃ rest, cs = '.' :: rest
  · rw [fractionEnd, if_pos (hpoint.2 h)]
    obtain ⟨rest, rfl⟩ := h
    have hpassed : ∀ c ∈ ['.'], c.toNat < 128 := List.forall_mem_singleton.2 (by decide)
    exact runEnd_ascii hpassed isAscii_isDigit before rest
  · have hnone : (spanFraction cs).1 = [] := by
      unfold spanFraction
      split
      · exact absurd ⟨_, rfl⟩ h
      · rfl
    rw [fractionEnd, if_neg (mt hpoint.1 h), hnone, List.append_nil]

/-- Where the exponent ends, with a mark and no sign. -/
theorem exponentEnd_unsigned (hmark : mark = 'e' ∨ mark = 'E')
    (hfirst : byteAt? bytes start = some mark)
    (hnext : byteAt? bytes (start + 1) ≠ some '+' ∧ byteAt? bytes (start + 1) ≠ some '-') :
    exponentEnd bytes start =
      if (byteAt? bytes (start + 1)).any Char.isDigit then runEnd bytes Char.isDigit (start + 1)
      else start := by
  simp [exponentEnd, hfirst, hmark, hnext.1, hnext.2]

/-- Where the exponent ends, with a mark and a sign. -/
theorem exponentEnd_signed (hmark : mark = 'e' ∨ mark = 'E')
    (hfirst : byteAt? bytes start = some mark) (hsign : sign = '+' ∨ sign = '-')
    (hnext : byteAt? bytes (start + 1) = some sign) :
    exponentEnd bytes start =
      if (byteAt? bytes (start + 2)).any Char.isDigit then runEnd bytes Char.isDigit (start + 2)
      else start := by
  simp [exponentEnd, hfirst, hmark, hnext, hsign]

theorem spanExponent_unsigned (hmark : mark = 'e' ∨ mark = 'E')
    (hnext : cs.head? ≠ some '+' ∧ cs.head? ≠ some '-') :
    (spanExponent (mark :: cs)).1 =
      if cs.head?.any Char.isDigit then mark :: cs.takeWhile Char.isDigit else [] := by
  cases cs with
  | nil => rfl
  | cons sign rest =>
    rw [List.head?_cons] at hnext
    have hsign : ¬((sign = '+' || sign = '-') && rest.head?.any Char.isDigit) = true := by
      simp_all
    rw [spanExponent, if_pos (by simpa using hmark), if_neg hsign, List.head?_cons, Option.any_some]
    split <;> rfl

theorem spanExponent_signed (hmark : mark = 'e' ∨ mark = 'E') (hsign : sign = '+' ∨ sign = '-')
    (cs : List Char) : (spanExponent (mark :: sign :: cs)).1 =
      if cs.head?.any Char.isDigit then mark :: sign :: cs.takeWhile Char.isDigit else [] := by
  have hdigit : ¬sign.isDigit = true := by rcases hsign with rfl | rfl <;> decide
  have hsign' : (sign = '+' || sign = '-') = true := by simpa using hsign
  rw [spanExponent, if_pos (by simpa using hmark), if_neg hdigit, hsign', Bool.true_and]
  split <;> rfl

/-- **The mark of an exponent is passed over** if there is a digit behind it, or behind a sign. -/
theorem exponentEnd_of_mark (hmark : mark = 'e' ∨ mark = 'E') (before cs : List Char) :
    exponentEnd (utf8 (before ++ mark :: cs)) (byteLength before) =
      byteLength (before ++ (spanExponent (mark :: cs)).1) := by
  have hascii : mark.toNat < 128 := by rcases hmark with rfl | rfl <;> decide
  have hfirst := byteAt?_byteLength before (mark :: cs)
  rw [List.head?_cons, Option.map_some, shown_of_lt hascii] at hfirst
  -- with a sign behind the mark the digits begin two bytes ahead, and otherwise one
  by_cases h : ∃ sign rest, cs = sign :: rest ∧ (sign = '+' ∨ sign = '-')
  · obtain ⟨sign, rest, rfl, hsign⟩ := h
    have hsignAscii : sign.toNat < 128 := by rcases hsign with rfl | rfl <;> decide
    have hpassed : ∀ c ∈ [mark, sign], c.toNat < 128 := by simp [hascii, hsignAscii]
    have hnext : byteAt? (utf8 (before ++ mark :: sign :: rest)) (byteLength before + 1) =
        some (shown sign) := byteAt?_ascii (List.forall_mem_singleton.2 hascii) before _
    rw [shown_of_lt hsignAscii] at hnext
    have hahead : byteAt? (utf8 (before ++ mark :: sign :: rest)) (byteLength before + 2) =
        rest.head?.map shown := byteAt?_ascii hpassed before rest
    rw [exponentEnd_signed hmark hfirst hsign hnext, spanExponent_signed hmark hsign, hahead,
      any_shown isAscii_isDigit]
    split
    · exact runEnd_ascii hpassed isAscii_isDigit before rest
    · rw [List.append_nil]
  · have hpassed : ∀ c ∈ [mark], c.toNat < 128 := List.forall_mem_singleton.2 hascii
    have hnext : byteAt? (utf8 (before ++ mark :: cs)) (byteLength before + 1) =
        cs.head?.map shown := byteAt?_ascii hpassed before cs
    have hplus : ¬∃ rest, cs = '+' :: rest := fun ⟨rest, heq⟩ ↦ h ⟨'+', rest, heq, .inl rfl⟩
    have hminus : ¬∃ rest, cs = '-' :: rest := fun ⟨rest, heq⟩ ↦ h ⟨'-', rest, heq, .inr rfl⟩
    rw [exponentEnd_unsigned hmark hfirst, spanExponent_unsigned hmark, hnext,
      any_shown isAscii_isDigit]
    · split
      · exact runEnd_ascii hpassed isAscii_isDigit before cs
      · rw [List.append_nil]
    · simpa [List.head?_eq_some_iff] using And.intro hplus hminus
    · rw [hnext]
      exact ⟨mt (map_shown_eq_some_iff '+' (by decide) cs).1 hplus,
        mt (map_shown_eq_some_iff '-' (by decide) cs).1 hminus⟩

theorem exponentEnd_byteLength (before cs : List Char) :
    exponentEnd (utf8 (before ++ cs)) (byteLength before) =
      byteLength (before ++ (spanExponent cs).1) := by
  by_cases h : ∃ mark rest, cs = mark :: rest ∧ (mark = 'e' ∨ mark = 'E')
  · obtain ⟨mark, rest, rfl, hmark⟩ := h
    exact exponentEnd_of_mark hmark before rest
  · have hstart : ¬(byteAt? (utf8 (before ++ cs)) (byteLength before) = some 'e' ||
        byteAt? (utf8 (before ++ cs)) (byteLength before) = some 'E') = true := by
      rw [byteAt?_byteLength, Bool.or_eq_true, decide_eq_true_eq, decide_eq_true_eq,
        map_shown_eq_some_iff 'e' (by decide), map_shown_eq_some_iff 'E' (by decide)]
      rintro (⟨rest, rfl⟩ | ⟨rest, rfl⟩)
      · exact h ⟨'e', rest, rfl, .inl rfl⟩
      · exact h ⟨'E', rest, rfl, .inr rfl⟩
    have hnone : (spanExponent cs).1 = [] := by
      unfold spanExponent
      split
      · rename_i mark sign rest
        have hmark : ¬(mark = 'e' || mark = 'E') = true := fun hmark ↦
          h ⟨mark, sign :: rest, rfl, by simpa using hmark⟩
        rw [if_neg hmark]
      · rfl
    rw [exponentEnd, if_neg hstart, hnone, List.append_nil]

theorem numberEnd_byteLength (before cs : List Char) :
    numberEnd (utf8 (before ++ cs)) (byteLength before) =
      byteLength (before ++ (spanNumber cs).1) := by
  have hwhole := runEnd_byteLength isAscii_isDigit before cs
  have hfraction := fractionEnd_byteLength (before ++ (spanDigits cs).1) (spanDigits cs).2
  have hexponent := exponentEnd_byteLength
    (before ++ (spanDigits cs).1 ++ (spanFraction (spanDigits cs).2).1)
    (spanFraction (spanDigits cs).2).2
  rw [List.append_assoc, spanDigits_append] at hfraction
  rw [List.append_assoc _ _ (spanFraction _).2, spanFraction_append, List.append_assoc,
    spanDigits_append] at hexponent
  rw [numberEnd, hwhole]
  change exponentEnd _ (fractionEnd _ (byteLength (before ++ (spanDigits cs).1))) = _
  rw [hfraction, hexponent, spanNumber]
  simp only [List.append_assoc]

end

/-! ## Quoted texts and symbols

A quoted text is decoded character by character in either reading, of the slice behind the opening
quote; what has to be shown is where it ends.  A symbol is told by up to three bytes, of which the
second is looked at only if the first is ASCII, and the third only if the second is. -/

section

variable {c quote : Char} {before cs content written text lexeme rest : List Char}

/-- **The offset of the closing quote** in a text that is closed leaves the quote and what follows
it. -/
theorem textBefore?_of_spanQuoted (hquote : quote.toNat < 128)
    (h : spanQuoted quote content written cs = some (text, lexeme, rest)) (index : Nat) :
    ∃ stop, textBefore? quote content index cs = some (String.ofList text, stop) ∧
      stop + 1 + byteLength rest = index + byteLength cs := by
  fun_induction spanQuoted quote content written cs generalizing index with
  | case1 => cases h
  | case2 content written c cs ih =>
    -- a backslash takes the character behind it along, whatever that is
    obtain ⟨stop, hstop, hlength⟩ := ih h (index + '\\'.utf8Size + c.utf8Size)
    refine ⟨stop, by rw [textBefore?, hstop], hlength.trans ?_⟩
    rw [byteLength_eq, byteLength_eq, String.utf8Len_cons, String.utf8Len_cons]
    omega
  | case3 => cases h
  | case4 content written cs hescape hc =>
    obtain ⟨rfl, -, rfl⟩ := by simpa using h
    refine ⟨index, ?_, ?_⟩
    · rw [textBefore?, if_neg hc, if_pos rfl]
      exact hescape
    · rw [byteLength_eq, byteLength_eq, String.utf8Len_cons, utf8Size_of_lt hquote]
      omega
  | case5 content written c cs hescape hc hne ih =>
    obtain ⟨stop, hstop, hlength⟩ := ih h (index + c.utf8Size)
    refine ⟨stop, ?_, hlength.trans ?_⟩
    · rw [textBefore?, if_neg hc, if_neg hne, hstop]
      exact hescape
    · rw [byteLength_eq, byteLength_eq, String.utf8Len_cons]
      omega

/-- A text that is not closed has no end by bytes either. -/
theorem textBefore?_of_spanQuoted_eq_none (h : spanQuoted quote content written cs = none)
    (index : Nat) : textBefore? quote content index cs = none := by
  fun_induction spanQuoted quote content written cs generalizing index with
  | case1 => rfl
  | case2 content written c cs ih => exact ih h _
  | case3 content written cs hescape =>
    rw [textBefore?, if_pos rfl]
    exact hescape
  | case4 => cases h
  | case5 content written c cs hescape hc hne ih =>
    rw [textBefore?, if_neg hc, if_neg hne]
    · exact ih h _
    · exact hescape

/-- A byte that is not ASCII begins no symbol. -/
theorem symbolOf?_of_le (h : 128 ≤ c.toNat) (second third : Option Char) :
    symbolOf? c second third = none := by
  unfold symbolOf?
  split <;> first | rfl | exact absurd h (by decide)

/-- A character that is not ASCII begins no symbol. -/
theorem symbolAt?_of_le (h : 128 ≤ c.toNat) (cs : List Char) : symbolAt? (c :: cs) = none := by
  generalize hcs : c :: cs = all
  unfold symbolAt?
  split <;> first | rfl | exact absurd h (by rw [(List.cons.inj hcs).1]; decide)

/-- A symbol is told by its first byte and by the two behind it. -/
theorem symbolOf?_eq (h : c.toNat < 128) (cs : List Char) (third : Option Char)
    (hthird : ∀ rest, cs = '=' :: rest → third = rest.head?.map shown) :
    symbolOf? c (cs.head?.map shown) third =
      (symbolAt? (c :: cs)).map fun p ↦ (p.1, byteLength p.2.1) := by
  have hsecond (ascii : Char) (hascii : ascii.toNat < 128) := map_shown_eq_some_iff ascii hascii cs
  generalize hall : c :: cs = all
  -- the symbols one after the other, longer ones first; the cases that are left open are those in
  -- which a longer symbol has to be ruled out by the bytes
  unfold symbolAt?
  split <;> cases hall
  case h_3 rest | h_5 rest =>
    rw [hthird _ rfl]
    rfl
  case h_4 rest hne | h_6 rest hne =>
    have hthird' : third ≠ some '=' := by
      rw [hthird _ rfl]
      exact fun heq ↦ ((map_shown_eq_some_iff '=' (by decide) rest).1 heq).elim hne
    exact congrArg (fun width ↦ some (_, width)) (if_neg hthird')
  case h_9 hne | h_10 hne | h_11 hne =>
    have hsecond' := mt (hsecond '=' (by decide)).1 fun ⟨rest, heq⟩ ↦ hne rest heq
    unfold symbolOf?
    split <;> first | rfl | grind
  -- no symbol at all: a single `&`, `|` or `=` is none
  case h_23 hand hor _ hequal _ _ _ _ _ _ _ _ _ _ _ _ _ _ _ _ _ _ =>
    unfold symbolOf?
    split
    case h_1 =>
      obtain ⟨rest, rfl⟩ := (hsecond '&' (by decide)).1 ‹_›
      exact absurd rfl (hand rest)
    case h_2 =>
      obtain ⟨rest, rfl⟩ := (hsecond '|' (by decide)).1 ‹_›
      exact absurd rfl (hor rest)
    case h_3 =>
      obtain ⟨rest, rfl⟩ := (hsecond '=' (by decide)).1 ‹_›
      exact absurd rfl (hequal rest)
    all_goals grind
  all_goals rfl

end

/-! ## Words -/

section

variable {source : String} {c quote : Char} {before cs cs' : List Char} {read : List Placed}

/-- **A slice between characters** is the characters in between. -/
theorem slice?_byteLength (h : source.toList = before ++ (cs ++ cs')) :
    slice? source (byteLength before) (byteLength (before ++ cs)) = some (String.ofList cs) := by
  have hstart : String.Pos.Raw.isValid source ⟨byteLength before⟩ = true :=
    String.Pos.Raw.isValid_eq_true_iff.2 (isBoundary_byteLength h)
  have hstop : String.Pos.Raw.isValid source ⟨byteLength (before ++ cs)⟩ = true :=
    String.Pos.Raw.isValid_eq_true_iff.2
      (isBoundary_byteLength (h.trans (List.append_assoc _ _ _).symm))
  have hle : byteLength before ≤ byteLength (before ++ cs) :=
    byteLength_append before cs ▸ Nat.le_add_right _ _
  rw [slice?, hstart, hstop, decide_eq_true hle, byteLength_append]
  exact congrArg some (textBetween_byteLength h)

/-- The slice from a place between characters to the end. -/
theorem slice?_utf8ByteSize (h : source.toList = before ++ cs) :
    slice? source (byteLength before) source.utf8ByteSize = some (String.ofList cs) := by
  have hall : source.toList = before ++ (cs ++ []) := by rw [h, List.append_nil]
  rw [← byteLength_toList, h]
  exact slice?_byteLength hall

/-- A number by its bytes, or the fault that names its text. -/
theorem numberAt_eq (h : source.toList = before ++ cs) :
    numberAt source (utf8 source.toList) (byteLength before) =
      some (match Binary64.ofText? (spanNumber cs).1 with
        | some x => .ok (.number x, byteLength (before ++ (spanNumber cs).1))
        | none => .error
          (.invalidNumber (String.ofList (spanNumber cs).1) (byteLength before))) := by
  have hcut : source.toList = before ++ ((spanNumber cs).1 ++ (spanNumber cs).2) := by
    rw [h, spanNumber_append]
  rw [numberAt, h, numberEnd_byteLength, slice?_byteLength hcut, Option.bind_eq_bind,
    Option.bind_some, String.toList_ofList]
  cases Binary64.ofText? (spanNumber cs).1 <;> rfl

/-- A quoted text by its bytes, or the fault that it is not closed. -/
theorem textAt_eq (hquote : quote = '\'' ∨ quote = '"')
    (h : source.toList = before ++ quote :: cs) :
    textAt source quote (byteLength before) =
      some (match spanQuoted quote [] [quote] cs with
        | some (text, lexeme, _) =>
          .ok (.text (String.ofList text), byteLength (before ++ lexeme))
        | none => .error (.unterminated (byteLength before))) := by
  have hascii : quote.toNat < 128 := by rcases hquote with rfl | rfl <;> decide
  have hopening : byteLength before + 1 = byteLength (before ++ [quote]) :=
    (byteLength_append_ascii (List.forall_mem_singleton.2 hascii) before).symm
  have hinside : source.toList = (before ++ [quote]) ++ cs := by
    rw [h, List.append_assoc]
    rfl
  rw [textAt, hopening, slice?_utf8ByteSize hinside, Option.bind_eq_bind, Option.bind_some,
    String.toList_ofList]
  cases hspan : spanQuoted quote [] [quote] cs with
  | none => rw [textBefore?_of_spanQuoted_eq_none hspan]
  | some read =>
    obtain ⟨text, lexeme, rest⟩ := read
    -- the closing quote is one byte more, and what is passed with it is the lexeme
    obtain ⟨stop, hstop, hlength⟩ := textBefore?_of_spanQuoted hascii hspan 0
    have hlexeme := congrArg byteLength (spanQuoted_append hspan).1
    have hone : byteLength [quote] = 1 :=
      byteLength_append_ascii (List.forall_mem_singleton.2 hascii) []
    rw [byteLength_append, byteLength_append, List.reverse_singleton, hone] at hlexeme
    have hend : byteLength (before ++ [quote]) + stop + 1 = byteLength (before ++ lexeme) := by
      rw [byteLength_append, byteLength_append, hone]
      omega
    rw [hstop]
    dsimp only
    rw [hend]

/-- A name by its bytes. -/
theorem nameAt_eq (h : source.toList = before ++ cs) :
    nameAt source (utf8 source.toList) (byteLength before) =
      some (.ok (.name (String.ofList (cs.takeWhile continuesName)),
        byteLength (before ++ cs.takeWhile continuesName))) := by
  have hcut : source.toList =
      before ++ (cs.takeWhile continuesName ++ cs.dropWhile continuesName) := by
    rw [h, List.takeWhile_append_dropWhile]
  rw [nameAt, h, runEnd_byteLength isAscii_continuesName, slice?_byteLength hcut]
  rfl

/-- A symbol by its bytes, or the fault that names the character, of whatever length it is. -/
theorem symbolAt_eq (h : source.toList = before ++ c :: cs) :
    symbolAt source (utf8 source.toList) (shown c) (byteLength before) =
      some (match symbolAt? (c :: cs) with
        | some (symbol, lexeme, _) => .ok (.symbol symbol, byteLength (before ++ lexeme))
        | none =>
          .error (.unexpected c.toString "operand or operator" (byteLength before))) := by
  have hsymbol : symbolOf? (shown c) (byteAt? (utf8 source.toList) (byteLength before + 1))
      (byteAt? (utf8 source.toList) (byteLength before + 2)) =
        (symbolAt? (c :: cs)).map fun p ↦ (p.1, byteLength p.2.1) := by
    rcases shown_cases c with ⟨hascii, hshown⟩ | ⟨hle, hle'⟩
    · have hsecond : byteAt? (utf8 (before ++ c :: cs)) (byteLength before + 1) =
          cs.head?.map shown := byteAt?_ascii (List.forall_mem_singleton.2 hascii) before cs
      rw [hshown, h, hsecond]
      refine symbolOf?_eq hascii cs _ fun rest hrest ↦ ?_
      have hpassed : ∀ d ∈ [c, '='], d.toNat < 128 := by simp [hascii]
      rw [hrest]
      exact byteAt?_ascii hpassed before rest
    · rw [symbolOf?_of_le hle', symbolAt?_of_le hle]
      rfl
  rw [symbolAt, hsymbol]
  cases symbolAt? (c :: cs) with
  | none =>
    rw [slice?_utf8ByteSize h]
    simp
  | some read =>
    obtain ⟨symbol, lexeme, rest⟩ := read
    dsimp only [Option.map_some]
    rw [byteLength_append]

/-- Whether a number begins is told by the first byte and, for a point, by the one behind it. -/
theorem startsNumber_shown (c : Char) (before cs : List Char) :
    (shown c = '.' && (byteAt? (utf8 (before ++ c :: cs)) (byteLength before + 1)).any Char.isDigit
      || (shown c).isDigit) = startsNumber (c :: cs) := by
  rcases shown_cases c with ⟨hascii, hshown⟩ | ⟨hle, hle'⟩
  · have hsecond : byteAt? (utf8 (before ++ c :: cs)) (byteLength before + 1) =
        cs.head?.map shown := byteAt?_ascii (List.forall_mem_singleton.2 hascii) before cs
    rw [hshown, hsecond, any_shown isAscii_isDigit, Bool.eq_iff_iff, startsNumber_cons_iff]
    cases cs with
    | nil => simp
    | cons d cs => simp [or_comm]
  · -- beyond ASCII there is no point and no digit, neither as a character nor as a byte
    have hpoint (d : Char) (hd : 128 ≤ d.toNat) : d ≠ '.' := by
      rintro rfl
      exact absurd hd (by decide)
    have hdigit (d : Char) (hd : 128 ≤ d.toNat) : d.isDigit = false :=
      eq_false_of_ne_true fun h ↦ absurd (isAscii_isDigit d h) (Nat.not_lt_of_le hd)
    rw [Bool.eq_iff_iff, startsNumber_cons_iff]
    simp [hpoint _ hle, hpoint _ hle', hdigit _ hle, hdigit _ hle']

/-- **The word at a place between characters** is the one that is read from the characters there. -/
theorem wordAt_eq (h : source.toList = before ++ c :: cs) :
    wordAt source (utf8 source.toList) (shown c) (byteLength before) =
      some ((scan (byteLength before) c cs).map fun s ↦
        (s.token, byteLength (before ++ s.lexeme))) := by
  have hnumber := startsNumber_shown c before cs
  have hsingle : shown c = '\'' ↔ c = '\'' := shown_eq_iff (by decide)
  have hdouble : shown c = '"' ↔ c = '"' := shown_eq_iff (by decide)
  rw [← h] at hnumber
  simp only [wordAt, scan, hnumber, hsingle, hdouble, isAscii_startsName.shown]
  split
  · rw [numberAt_eq h]
    cases Binary64.ofText? (spanNumber (c :: cs)).1 <;> rfl
  · split
    · rename_i hmark
      have hmark' : c = '\'' ∨ c = '"' := by simpa using hmark
      have hascii : c.toNat < 128 := by rcases hmark' with rfl | rfl <;> decide
      rw [shown_of_lt hascii, textAt_eq hmark' h]
      cases spanQuoted c [] [c] cs <;> rfl
    · split
      · rename_i hname
        have hlexeme : (c :: cs).takeWhile continuesName = c :: cs.takeWhile continuesName :=
          List.takeWhile_cons_of_pos (continuesName_of_startsName hname)
        rw [nameAt_eq h, hlexeme]
        rfl
      · rw [symbolAt_eq h]
        cases symbolAt? (c :: cs) <;> rfl

/-! ## Texts -/

/-- At the end of the text there are no more words. -/
theorem wordsFrom_of_none {bytes : List UInt8} {offset : Nat} (h : byteAt? bytes offset = none) :
    wordsFrom source bytes offset read = some (.ok (read.reverse, offset)) := by
  rw [byteAt?, Option.map_eq_none_iff] at h
  rw [wordsFrom]
  split
  · rfl
  · rename_i hb
    rw [h] at hb
    cases hb

/-- Elsewhere a separator is passed over or a word is read. -/
theorem wordsFrom_of_some {bytes : List UInt8} {offset : Nat} (h : byteAt? bytes offset = some c) :
    wordsFrom source bytes offset read =
      if isSeparator c then wordsFrom source bytes (offset + 1) read
      else (wordAt source bytes c offset).bind fun
        | .error fault => some (.error fault)
        | .ok (token, stop) =>
          if offset < stop then wordsFrom source bytes stop (⟨token, offset⟩ :: read)
          else none := by
  obtain ⟨b, hb, rfl⟩ := Option.map_eq_some_iff.1 h
  rw [wordsFrom]
  split
  · rename_i hnone
    rw [hb] at hnone
    cases hnone
  · rename_i b' hb'
    obtain rfl := Option.some.inj (hb.symm.trans hb')
    split
    · rfl
    · split <;> rename_i hword <;> rw [hword] <;> rfl

theorem byteAt?_of_toList (h : source.toList = before ++ c :: cs) :
    byteAt? (utf8 source.toList) (byteLength before) = some (shown c) := by
  rw [h, byteAt?_byteLength]
  rfl

/-- **From any place between characters on the same words are read.**  The induction is along the
reading by characters, which takes the offset from one such place to the next. -/
theorem wordsFrom_eq (position : Nat) (h : source.toList = before ++ cs)
    (hposition : position = byteLength before) :
    wordsFrom source (utf8 source.toList) position read = some (tokensFrom position read cs) := by
  fun_induction tokensFrom position read cs generalizing before with
  | case1 position read =>
    rw [wordsFrom_of_none (by rw [hposition, h, byteAt?_byteLength]; rfl)]
  | case2 position read c cs hc ih =>
    have hseen := byteAt?_of_toList h
    rw [← hposition] at hseen
    have hrest : source.toList = (before ++ [c]) ++ cs := by
      rw [h, List.append_assoc]
      rfl
    have hascii : ∀ d ∈ [c], d.toNat < 128 :=
      List.forall_mem_singleton.2 (isAscii_isSeparator c hc)
    rw [wordsFrom_of_some hseen, isAscii_isSeparator.shown, if_pos hc]
    exact ih hrest (by rw [byteLength_append_ascii hascii, hposition]; rfl)
  | case3 position read c cs hc fault hscan =>
    have hseen := byteAt?_of_toList h
    rw [← hposition] at hseen
    rw [wordsFrom_of_some hseen, isAscii_isSeparator.shown, if_neg hc, hposition, wordAt_eq h,
      ← hposition, hscan]
    rfl
  | case4 position read c cs hc s hscan ih =>
    have hseen := byteAt?_of_toList h
    rw [← hposition] at hseen
    obtain ⟨happend, hne⟩ := scan_append hscan
    have hrest : source.toList = (before ++ s.lexeme) ++ s.rest := by
      rw [h, List.append_assoc, happend]
    have hstop : byteLength (before ++ s.lexeme) = position + byteLength s.lexeme := by
      rw [byteLength_append, hposition]
    -- the reading by bytes asks for this, so as to come to an end; a lexeme is never empty
    have hlt : position < position + byteLength s.lexeme :=
      Nat.lt_add_of_pos_right (byteLength_pos hne)
    rw [wordsFrom_of_some hseen, isAscii_isSeparator.shown, if_neg hc, hposition, wordAt_eq h,
      ← hposition, hscan]
    dsimp only [Except.map, Option.bind_some]
    rw [hstop, if_pos hlt]
    exact ih hrest hstop.symm

end

/-- **Reading by bytes has a result for every text**, and it is that of reading by characters. -/
theorem wordsOfBytes_eq (source : String) : wordsOfBytes source = some (tokens source.toList) := by
  have hfrom : wordsFrom source (utf8 source.toList) 0 [] =
      some (tokensFrom 0 [] source.toList) := wordsFrom_eq 0 (List.nil_append _).symm rfl
  rw [wordsOfBytes, toUTF8_eq_utf8, hfrom, tokens]
  cases tokensFrom 0 [] source.toList with
  | error fault => rfl
  | ok result =>
    obtain ⟨ts, finish⟩ := result
    cases ts <;> rfl

/-- The quoted letter is two bytes long, and the word behind it begins after both. -/
example : wordsOfBytes "'é'+b" =
    some (.ok ([⟨.text "é", 0⟩, ⟨.symbol .plus, 4⟩, ⟨.name "b", 5⟩], 6)) := by
  rw [wordsOfBytes_eq]
  decide +kernel

end ReactiveForm
