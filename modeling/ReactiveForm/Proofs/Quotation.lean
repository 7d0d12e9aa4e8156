import ReactiveForm.Expression.Reads
import ReactiveForm.Proofs.Skimming
import ReactiveForm.Proofs.Tiling

/-!
# Quoted texts

Any text can be written in quotes: with a backslash before every backslash and before every quote
of its own kind, it is read as it was (`spanQuoted_withBackslashes`).

Where a quoted text ends is found out twice, by characters when the text is cut into words, and by
bytes when it is passed over (`skipQuoted`).  Behind a backslash the one passes over a character and
the other over a byte; they still meet, because a byte of a character that is several bytes long is
neither a backslash nor a quotation mark (`eq_of_mem_utf8EncodeChar`).
-/

set_option autoImplicit false
namespace ReactiveForm

/-! ## Any text can be quoted -/

/-- **The characters a text is written with in quotes**, less the quotes. -/
def withBackslashes (quote : Char) (cs : List Char) : List Char :=
  cs.flatMap fun c ↦ if c = '\\' ∨ c = quote then ['\\', c] else [c]

section

variable {quote : Char} {position : Nat} {cs : List Char}

/-- **A text between quotes is read as it was written**, in the middle of any other text. -/
theorem spanQuoted_withBackslashes (hquote : quote = '\'' ∨ quote = '"')
    (content written rest cs : List Char) :
    spanQuoted quote content written (withBackslashes quote cs ++ quote :: rest) =
      some (content.reverse ++ cs, written.reverse ++ withBackslashes quote cs ++ [quote],
        rest) := by
  have hself : unescapedLetter quote = quote := by rcases hquote with rfl | rfl <;> rfl
  have hne : quote ≠ '\\' := by rcases hquote with rfl | rfl <;> decide
  induction cs generalizing content written with
  | nil =>
    rw [withBackslashes, List.flatMap_nil, List.nil_append, spanQuoted, if_neg hne, if_pos rfl]
    · simp
    · exact fun _ _ h ↦ absurd h hne
  | cons c cs ih =>
    rw [withBackslashes, List.flatMap_cons, ← withBackslashes]
    by_cases hc : c = '\\' ∨ c = quote
    · have hletter : unescapedLetter c = c := by
        rcases hc with rfl | rfl
        · rfl
        · exact hself
      rw [if_pos hc, List.cons_append, List.cons_append, List.cons_append, List.cons_append,
        List.nil_append, spanQuoted, ih, hletter]
      simp
    · obtain ⟨hbackslash, hquote⟩ := not_or.1 hc
      rw [if_neg hc, List.cons_append, List.cons_append, List.nil_append, spanQuoted,
        if_neg hbackslash, if_neg hquote, ih]
      · simp
      · exact fun _ _ h ↦ absurd h hbackslash

theorem scan_quote (hquote : quote = '\'' ∨ quote = '"') :
    scan position quote cs = match spanQuoted quote [] [quote] cs with
      | some (content, lexeme, rest) => .ok ⟨.text (String.ofList content), lexeme, rest⟩
      | none => .error (.unterminated position) := by
  have hmark : (quote = '\'' || quote = '"') = true := by simpa using hquote
  have hnumber : ¬startsNumber (quote :: cs) = true := by
    rw [startsNumber_cons_iff]
    rcases hquote with rfl | rfl <;> simp
  rw [scan, if_neg hnumber]
  exact if_pos hmark

/-- A quoted text by itself is one word, which is the text. -/
theorem tokens_withBackslashes (hquote : quote = '\'' ∨ quote = '"') (s : String) :
    let quoted := quote :: (withBackslashes quote s.toList ++ [quote])
    tokens quoted = .ok ([⟨.text s, 0⟩], byteLength quoted) := by
  intro quoted
  have hseparator : isSeparator quote = false := by rcases hquote with rfl | rfl <;> rfl
  have hscan : scan 0 quote (withBackslashes quote s.toList ++ [quote]) =
      .ok ⟨.text s, quoted, []⟩ := by
    rw [scan_quote hquote, spanQuoted_withBackslashes hquote]
    simp [quoted]
  exact tokens_lexeme hseparator hscan

end

/-! ## Bytes of characters -/

/-- The bytes of some characters. -/
def utf8 (cs : List Char) : List UInt8 := cs.flatMap String.utf8EncodeChar

section

variable {c ascii : Char} {before cs : List Char}

theorem utf8_append (cs cs' : List Char) : utf8 (cs ++ cs') = utf8 cs ++ utf8 cs' :=
  List.flatMap_append

theorem utf8_append_append (before cs after : List Char) :
    utf8 (before ++ (cs ++ after)) = utf8 before ++ (utf8 cs ++ utf8 after) := by
  rw [utf8_append, utf8_append]

theorem utf8_cons (c : Char) (cs : List Char) :
    utf8 (c :: cs) = String.utf8EncodeChar c ++ utf8 cs :=
  List.flatMap_cons

theorem utf8_singleton (c : Char) : utf8 [c] = String.utf8EncodeChar c :=
  List.flatMap_singleton ..

/-- Places between characters are counted in bytes. -/
theorem length_utf8 (cs : List Char) : (utf8 cs).length = byteLength cs := by
  rw [byteLength_eq]
  induction cs with
  | nil => rfl
  | cons c cs ih =>
    rw [utf8_cons, List.length_append, ih, String.length_utf8EncodeChar, String.utf8Len_cons,
      Nat.add_comm]

theorem toUTF8_eq_utf8 (source : String) : source.toUTF8.data.toList = utf8 source.toList := by
  conv_lhs => rw [← String.ofList_toList (s := source)]
  rw [String.toUTF8_eq_toByteArray, String.toByteArray_ofList, List.utf8Encode,
    List.toList_data_toByteArray]
  rfl

/-- A character is one byte, or all its bytes are beyond ASCII. -/
theorem utf8EncodeChar_cases (c : Char) :
    c.val.toNat < 128 ∧ String.utf8EncodeChar c = [c.val.toUInt8] ∨
      ∀ b ∈ String.utf8EncodeChar c, 128 ≤ b.toNat := by
  by_cases hsize : c.utf8Size = 1
  · have hle : c.val.toNat ≤ 127 := UInt32.le_iff_toNat_le.1 (Char.utf8Size_eq_one_iff.1 hsize)
    exact .inl ⟨Nat.lt_succ_of_le hle, String.utf8EncodeChar_eq_singleton hsize⟩
  · right
    have hlarge : ¬c.val.toNat ≤ 127 := fun hle ↦
      hsize (Char.utf8Size_eq_one_iff.2 (UInt32.le_iff_toNat_le.2 hle))
    unfold String.utf8EncodeChar
    dsimp only
    rw [if_neg hlarge]
    -- What is added to the bits of the character is never less than 128, and no byte overflows.
    split_ifs <;>
      simp only [List.forall_mem_cons, List.not_mem_nil, false_implies, implies_true, and_true,
        UInt8.toNat_ofNat'] <;>
      omega

/-- **The byte of an ASCII character** is in no other character. -/
theorem eq_of_mem_utf8EncodeChar (hascii : ascii.val.toNat < 128)
    (h : ascii.val.toUInt8 ∈ String.utf8EncodeChar c) : c = ascii := by
  have hbyte : ascii.val.toUInt8.toNat = ascii.val.toNat := by
    rw [UInt32.toNat_toUInt8]
    omega
  rcases utf8EncodeChar_cases c with ⟨hlt, hc⟩ | hlarge
  · rw [hc, List.mem_singleton, ← UInt8.toNat_inj, hbyte, UInt32.toNat_toUInt8,
      Nat.mod_eq_of_lt (Nat.lt_trans hlt (by decide)), UInt32.toNat_inj] at h
    exact Char.ext h.symm
  · have hle := hlarge _ h
    omega

/-- Only the first byte of a character can be one of an ASCII character. -/
theorem exists_utf8EncodeChar_eq_cons (c : Char) :
    ∃ b tail, String.utf8EncodeChar c = b :: tail ∧ ∀ b' ∈ tail, 128 ≤ b'.toNat := by
  rcases utf8EncodeChar_cases c with ⟨-, hc⟩ | hlarge
  · exact ⟨_, [], hc, List.forall_mem_nil _⟩
  · cases hc : String.utf8EncodeChar c with
    | nil => exact absurd hc String.utf8EncodeChar_ne_nil
    | cons b tail => exact ⟨b, tail, rfl, fun b' hb' ↦ hlarge b' (hc ▸ List.mem_cons_of_mem b hb')⟩

end

/-! ## Where a quoted text ends -/

section

variable {bytes left passed right : List UInt8} {b mark : UInt8}

theorem quotedEnd_length (bytes : List UInt8) (mark : UInt8) {offset : Nat}
    (h : bytes.length ≤ offset) : quotedEnd bytes mark offset = offset := by
  rw [quotedEnd]
  split
  · rfl
  · rename_i hb
    rw [List.getElem?_eq_none h] at hb
    cases hb

/-- **One step of passing over**: two bytes at a backslash, the last byte at the mark, else one. -/
theorem quotedEnd_at (h : bytes = left ++ b :: right) :
    quotedEnd bytes mark left.length =
      if b = '\\'.val.toUInt8 then quotedEnd bytes mark (left.length + 2)
      else if b = mark then left.length + 1
      else quotedEnd bytes mark (left.length + 1) := by
  have hb : bytes[left.length]? = some b := by simp [h]
  rw [quotedEnd]
  split
  · rename_i hnone
    rw [hb] at hnone
    cases hnone
  · rename_i b' hb'
    obtain rfl := Option.some.inj (hb.symm.trans hb')
    rfl

/-- Bytes that are neither a backslash nor the quotation mark are passed over. -/
theorem quotedEnd_passed (h : bytes = left ++ (passed ++ right))
    (hpassed : ∀ b ∈ passed, b ≠ '\\'.val.toUInt8 ∧ b ≠ mark) :
    quotedEnd bytes mark left.length = quotedEnd bytes mark (left.length + passed.length) := by
  induction passed generalizing left with
  | nil => rfl
  | cons b passed ih =>
    obtain ⟨⟨hbackslash, hmark⟩, hpassed⟩ := List.forall_mem_cons.1 hpassed
    rw [quotedEnd_at h, if_neg hbackslash, if_neg hmark]
    have hsplit : bytes = (left ++ [b]) ++ (passed ++ right) := by
      rw [h, List.append_assoc]
      rfl
    have hnext := ih hsplit hpassed
    rw [List.length_append, List.length_singleton] at hnext
    rw [hnext, List.length_cons, Nat.add_assoc, Nat.add_comm 1]

end

section

variable {quote c : Char} {before cs : List Char}

/-- The offset behind some characters as the number of bytes in front of it. -/
theorem length_utf8_append (before cs : List Char) :
    (utf8 before ++ utf8 cs).length = byteLength (before ++ cs) := by
  rw [← utf8_append, length_utf8]

/-- A character that is neither is passed over byte by byte. -/
theorem quotedEnd_other (hquote : quote = '\'' ∨ quote = '"') (hbackslash : c ≠ '\\')
    (hne : c ≠ quote) :
    quotedEnd (utf8 (before ++ c :: cs)) quote.val.toUInt8 (byteLength before) =
      quotedEnd (utf8 (before ++ c :: cs)) quote.val.toUInt8 (byteLength (before ++ [c])) := by
  have hquoteAscii : quote.val.toNat < 128 := by rcases hquote with rfl | rfl <;> decide
  have hpassed : ∀ b ∈ utf8 [c], b ≠ '\\'.val.toUInt8 ∧ b ≠ quote.val.toUInt8 := by
    intro b hb
    rw [utf8_singleton] at hb
    constructor
    · rintro rfl
      exact hbackslash (eq_of_mem_utf8EncodeChar (by decide) hb)
    · rintro rfl
      exact hne (eq_of_mem_utf8EncodeChar hquoteAscii hb)
  have hsplit : utf8 (before ++ c :: cs) = utf8 before ++ (utf8 [c] ++ utf8 cs) :=
    utf8_append_append before [c] cs
  rw [← length_utf8 before, quotedEnd_passed hsplit hpassed, ← List.length_append,
    length_utf8_append]

/-- Behind a backslash, a character is passed over however many bytes it has. -/
theorem quotedEnd_escaped (hquote : quote = '\'' ∨ quote = '"') :
    quotedEnd (utf8 (before ++ '\\' :: c :: cs)) quote.val.toUInt8 (byteLength before) =
      quotedEnd (utf8 (before ++ '\\' :: c :: cs)) quote.val.toUInt8
        (byteLength (before ++ ['\\', c])) := by
  have hmark : quote.val.toUInt8.toNat < 128 := by rcases hquote with rfl | rfl <;> decide
  obtain ⟨b, tail, hc, htail⟩ := exists_utf8EncodeChar_eq_cons c
  have hpassed : ∀ b' ∈ tail, b' ≠ '\\'.val.toUInt8 ∧ b' ≠ quote.val.toUInt8 := by
    intro b' hb'
    have hlarge := htail b' hb'
    refine ⟨?_, ?_⟩ <;> rintro rfl
    · exact absurd hlarge (by decide)
    · omega
  have hbytes : utf8 ['\\', c] = '\\'.val.toUInt8 :: b :: tail := by
    rw [utf8_cons, utf8_singleton, hc]
    rfl
  have hsplit : utf8 (before ++ '\\' :: c :: cs) =
      utf8 before ++ '\\'.val.toUInt8 :: b :: (tail ++ utf8 cs) :=
    (utf8_append_append before ['\\', c] cs).trans (by rw [hbytes]; rfl)
  have hsplit' : utf8 (before ++ '\\' :: c :: cs) =
      (utf8 before ++ ['\\'.val.toUInt8, b]) ++ (tail ++ utf8 cs) := by
    rw [hsplit, List.append_assoc]
    rfl
  calc quotedEnd (utf8 (before ++ '\\' :: c :: cs)) quote.val.toUInt8 (byteLength before)
    _ = quotedEnd (utf8 (before ++ '\\' :: c :: cs)) quote.val.toUInt8
          (utf8 before ++ ['\\'.val.toUInt8, b]).length := by
      rw [← length_utf8 before, quotedEnd_at hsplit, if_pos rfl, List.length_append]
      rfl
    _ = quotedEnd (utf8 (before ++ '\\' :: c :: cs)) quote.val.toUInt8
          (byteLength (before ++ ['\\', c])) := by
      rw [quotedEnd_passed hsplit' hpassed, ← List.length_append, List.append_assoc,
        List.cons_append, List.cons_append, List.nil_append, ← hbytes, length_utf8_append]

/-- A quotation mark is one byte. -/
theorem utf8_quote (hquote : quote = '\'' ∨ quote = '"') :
    utf8 [quote] = [quote.val.toUInt8] := by
  rcases hquote with rfl | rfl <;> rfl

theorem utf8_append_quote (hquote : quote = '\'' ∨ quote = '"') (before cs : List Char) :
    utf8 (before ++ quote :: cs) = utf8 before ++ quote.val.toUInt8 :: utf8 cs := by
  have h := utf8_append_append before [quote] cs
  rwa [utf8_quote hquote] at h

/-- A closing quote ends the text. -/
theorem quotedEnd_quote (hquote : quote = '\'' ∨ quote = '"') :
    quotedEnd (utf8 (before ++ quote :: cs)) quote.val.toUInt8 (byteLength before) =
      byteLength (before ++ [quote]) := by
  have hne : quote.val.toUInt8 ≠ '\\'.val.toUInt8 := by rcases hquote with rfl | rfl <;> decide
  rw [← length_utf8 before, quotedEnd_at (utf8_append_quote hquote before cs), if_neg hne,
    if_pos rfl, ← length_utf8_append, utf8_quote hquote, List.length_append]
  rfl

/-- Behind a backslash at the end of the text the offset is beyond it. -/
theorem quotedEnd_lone_backslash (mark : UInt8) (before : List Char) :
    quotedEnd (utf8 (before ++ ['\\'])) mark (byteLength before) =
      byteLength (before ++ ['\\']) + 1 := by
  have hsplit : utf8 (before ++ ['\\']) = utf8 before ++ ['\\'.val.toUInt8] := utf8_append before _
  have hend : (utf8 (before ++ ['\\'])).length = (utf8 before).length + 1 := by
    rw [hsplit, List.length_append]
    rfl
  rw [← length_utf8 before, quotedEnd_at hsplit, if_pos rfl,
    quotedEnd_length _ _ (hend ▸ Nat.le_succ _), ← length_utf8 (before ++ _), hend]

end

/-! ## The two ways to find the end -/

section

variable {quote : Char} {source before cs content written text lexeme rest : List Char}

/-- **A text that is closed ends at the same place for both.** -/
theorem quotedEnd_of_spanQuoted (hquote : quote = '\'' ∨ quote = '"')
    (hsource : source = before ++ cs)
    (h : spanQuoted quote content written cs = some (text, lexeme, rest)) :
    quotedEnd (utf8 source) quote.val.toUInt8 (byteLength before) + byteLength rest =
      byteLength source := by
  fun_induction spanQuoted quote content written cs generalizing before with
  | case1 => cases h
  | case2 content written c cs ih =>
    rw [hsource, quotedEnd_escaped hquote, ← hsource]
    exact ih (by rw [hsource, List.append_assoc]; rfl) h
  | case3 => cases h
  | case4 content written cs hescape hc =>
    obtain ⟨-, -, rfl⟩ := Prod.mk.inj (Option.some.inj h)
    rw [hsource, quotedEnd_quote hquote, ← byteLength_append, List.append_assoc]
    rfl
  | case5 content written c cs hescape hc hne ih =>
    rw [hsource, quotedEnd_other hquote hc hne, ← hsource]
    exact ih (by rw [hsource, List.append_assoc]; rfl) h

/-- **A text that is not closed ends nowhere for both.** -/
theorem quotedEnd_of_spanQuoted_eq_none (hquote : quote = '\'' ∨ quote = '"')
    (hsource : source = before ++ cs) (h : spanQuoted quote content written cs = none) :
    byteLength source ≤ quotedEnd (utf8 source) quote.val.toUInt8 (byteLength before) ∧
      afterQuoted quote cs = [] := by
  fun_induction spanQuoted quote content written cs generalizing before with
  | case1 =>
    rw [List.append_nil] at hsource
    rw [← hsource, quotedEnd_length _ _ (Nat.le_of_eq (length_utf8 source))]
    exact ⟨Nat.le_refl _, rfl⟩
  | case2 content written c cs ih =>
    rw [hsource, quotedEnd_escaped hquote, ← hsource, afterQuoted]
    exact ih (by rw [hsource, List.append_assoc]; rfl) h
  | case3 content written cs hescape =>
    obtain rfl : cs = [] := by
      cases cs with
      | nil => rfl
      | cons c cs => exact (hescape c cs rfl rfl).elim
    rw [hsource, quotedEnd_lone_backslash]
    exact ⟨Nat.le_succ _, rfl⟩
  | case4 => cases h
  | case5 content written c cs hescape hc hne ih =>
    rw [hsource, quotedEnd_other hquote hc hne, ← hsource, afterQuoted, if_neg hc, if_neg hne]
    · exact ih (by rw [hsource, List.append_assoc]; rfl) h
    · exact hescape

/-- Passing over a text goes on behind its opening quote. -/
theorem skipQuoted_eq (hquote : quote = '\'' ∨ quote = '"') (before cs : List Char) :
    skipQuoted (utf8 (before ++ quote :: cs)) (byteLength before) =
      some (quotedEnd (utf8 (before ++ quote :: cs)) quote.val.toUInt8
        (byteLength (before ++ [quote]))) := by
  have hfirst : (utf8 (before ++ quote :: cs))[byteLength before]? = some quote.val.toUInt8 := by
    rw [utf8_append_quote hquote, ← length_utf8]
    simp
  rw [skipQuoted, hfirst, ← length_utf8_append, utf8_quote hquote, List.length_append, length_utf8]
  rfl

end

/-- **Quoted texts are read as they were written**, and both ways to find the end of one agree.
Every text can be written in quotes of either kind, and then is one word.  An opening quote that
stands anywhere in a text begins a word, and passing over it by bytes ends where the word ends; or
it is never closed, and passing over it ends at the end of the text or behind it.  What is passed
over by characters is the same. -/
theorem quotedText_laws {quote : Char} (hquote : quote = '\'' ∨ quote = '"') :
    (∀ s : String, tokens (quote :: (withBackslashes quote s.toList ++ [quote])) =
      .ok ([⟨.text s, 0⟩], byteLength (quote :: (withBackslashes quote s.toList ++ [quote])))) ∧
    ∀ (source : String) (before after : List Char), source.toList = before ++ quote :: after →
      (∃ s lexeme rest,
        scan (byteLength before) quote after = .ok ⟨.text s, lexeme, rest⟩ ∧
        lexeme ++ rest = quote :: after ∧ afterQuoted quote after = rest ∧
        skipQuoted source.toUTF8.data.toList (byteLength before) =
          some (byteLength before + byteLength lexeme)) ∨
      scan (byteLength before) quote after = .error (.unterminated (byteLength before)) ∧
        afterQuoted quote after = [] ∧
        ∃ stop, skipQuoted source.toUTF8.data.toList (byteLength before) = some stop ∧
          source.utf8ByteSize ≤ stop := by
  refine ⟨tokens_withBackslashes hquote, fun source before after hsource ↦ ?_⟩
  have hsource' : source.toList = (before ++ [quote]) ++ after := by
    rw [hsource, List.append_assoc]
    rfl
  rw [scan_quote hquote, toUTF8_eq_utf8, hsource, skipQuoted_eq hquote, ← hsource]
  cases hspan : spanQuoted quote [] [quote] after with
  | some read =>
    obtain ⟨text, lexeme, rest⟩ := read
    have hend := quotedEnd_of_spanQuoted hquote hsource' hspan
    have hlexeme : lexeme ++ rest = quote :: after := (spanQuoted_append hspan).1
    have hlength : byteLength source.toList =
        byteLength before + (byteLength lexeme + byteLength rest) := by
      rw [hsource, ← hlexeme, byteLength_append, byteLength_append]
    refine .inl ⟨_, _, _, rfl, hlexeme, afterQuoted_of_spanQuoted hspan, congrArg some ?_⟩
    omega
  | none =>
    obtain ⟨hle, hafter⟩ := quotedEnd_of_spanQuoted_eq_none hquote hsource' hspan
    exact .inr ⟨rfl, hafter, _, rfl, byteLength_toList source ▸ hle⟩

/-- The letter with the accent is two bytes long, and the apostrophe behind the backslash closes
nothing. -/
theorem quotedText_laws_possessive :
    withBackslashes '\'' "é's".toList = "é\\'s".toList ∧
      tokens "'é\\'s'".toList = .ok ([⟨.text "é's", 0⟩], 7) ∧
      skipQuoted "b+'é\\'s'".toUTF8.data.toList 2 = some 9 := by
  obtain ⟨hround, hskip⟩ := @quotedText_laws '\'' (.inl rfl)
  have hescaped : withBackslashes '\'' "é's".toList = "é\\'s".toList := by decide
  have htokens := hround "é's"
  rw [hescaped] at htokens
  have hscan : scan 2 '\'' "é\\'s'".toList = .ok ⟨.text "é's", "'é\\'s'".toList, []⟩ := by rfl
  refine ⟨hescaped, htokens, ?_⟩
  rcases hskip "b+'é\\'s'" ['b', '+'] "é\\'s'".toList rfl with
    ⟨s, lexeme, rest, hread, -, -, hstop⟩ | ⟨hfault, -⟩
  · obtain ⟨-, rfl, -⟩ := Scanned.mk.inj (Except.ok.inj (hscan.symm.trans hread))
    exact hstop
  · cases hscan.symm.trans hfault

end ReactiveForm
