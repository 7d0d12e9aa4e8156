import Mathlib.Data.List.TakeWhile
import Mathlib.Data.String.Basic
import ReactiveForm.Proofs.NumberText

/-!
# Words and separators tile a text

Cutting a text into words loses nothing.  The words and the separators lie side by side and cover
the text from its start to its end (`SideBySide`), every one of them begins and ends between two
characters, and each word is cut out of its piece of the text alone just as it is out of the whole
text (`Tile.Fits`).  Where a text cannot be cut, the fault names the character that stands at its
place, and is never that a number cannot be read (`tokens_tile`).

Positions count bytes, but words are read by characters; what ties the two is that a position is
always the length in bytes of the characters before it.
-/

set_option autoImplicit false
namespace ReactiveForm

/-! ## Characters and bytes

Every position that the lexer hands out is the length of the text before it.  In this form it is a
boundary, what lies between two of them is made of whole characters, and the character that stands
there is the next one. -/

section

variable {cs cs' before : List Char}

theorem byteLength_eq (cs : List Char) : byteLength cs = String.utf8Len cs := by
  have hfrom : ∀ (cs : List Char) (n : Nat),
      cs.foldl (fun n c ↦ n + c.utf8Size) n = n + String.utf8Len cs := by
    intro cs
    induction cs with
    | nil => exact fun n ↦ rfl
    | cons c cs ih =>
      intro n
      rw [List.foldl_cons, ih, String.utf8Len_cons, Nat.add_assoc, Nat.add_comm c.utf8Size]
  rw [byteLength, hfrom, Nat.zero_add]

theorem byteLength_append (cs cs' : List Char) :
    byteLength (cs ++ cs') = byteLength cs + byteLength cs' := by
  simp only [byteLength_eq, String.utf8Len_append]

theorem byteLength_pos (h : cs ≠ []) : 0 < byteLength cs := by
  rw [byteLength_eq]
  exact Nat.pos_of_ne_zero fun hzero ↦ h (String.utf8Len_eq_zero.1 hzero)

theorem byteLength_toList (source : String) : byteLength source.toList = source.utf8ByteSize := by
  rw [byteLength_eq, ← String.utf8ByteSize_ofList, String.ofList_toList]

theorem byteLength_separator {c : Char} (h : isSeparator c = true) : byteLength [c] = 1 := by
  simp only [isSeparator, Bool.or_eq_true, decide_eq_true_eq] at h
  rcases h with ((rfl | rfl) | rfl) | rfl <;> rfl

/-- **A boundary**: a position between two characters, or at either end of the text. -/
def IsBoundary (source : String) (position : Nat) : Prop :=
  String.Pos.Raw.IsValid source ⟨position⟩

/-- The text from one position to another. -/
def textBetween (source : String) (start stop : Nat) : String :=
  String.Pos.Raw.extract source ⟨start⟩ ⟨stop⟩

variable {source : String}

/-- The end of what stands in front is a boundary. -/
theorem isBoundary_byteLength (h : source.toList = before ++ cs) :
    IsBoundary source (byteLength before) := by
  rw [IsBoundary, String.Pos.Raw.isValid_iff_exists_append]
  refine ⟨String.ofList before, String.ofList cs, ?_, ?_⟩
  · rw [← String.ofList_append, ← h, String.ofList_toList]
  · rw [String.rawEndPos_ofList, byteLength_eq]

/-- What lies between the lengths of two beginnings is the difference of the two. -/
theorem textBetween_byteLength (h : source.toList = before ++ (cs ++ cs')) :
    textBetween source (byteLength before) (byteLength before + byteLength cs) =
      String.ofList cs := by
  rw [textBetween, byteLength_eq, byteLength_eq, ← String.ofList_toList (s := source), h,
    ← List.append_assoc]
  exact String.extract_of_valid before cs cs'

theorem get_byteLength {c : Char} (h : source.toList = before ++ c :: cs) :
    String.Pos.Raw.get source ⟨byteLength before⟩ = c := by
  rw [byteLength_eq, ← String.ofList_toList (s := source), h]
  exact String.get_of_valid before (c :: cs)

end

/-! ## A word alone

A word is recognized by its beginning and read as far as it goes, so that it might depend on what
comes behind it.  It does not: cut off from the rest of the text it is recognized in the same way
and read to its end. -/

section

variable {position : Nat} {c : Char} {cs cs' rest lexeme : List Char} {s : Scanned}

/-- A quoted text ends with its closing quote, whatever comes behind it. -/
theorem exists_spanQuoted_append {quote : Char} {content written text : List Char}
    (h : spanQuoted quote content written cs = some (text, lexeme, rest)) :
    ∃ inside, cs = inside ++ rest ∧ lexeme = written.reverse ++ inside ∧
      ∀ rest', spanQuoted quote content written (inside ++ rest') =
        some (text, lexeme, rest') := by
  fun_induction spanQuoted quote content written cs with
  | case1 => cases h
  | case2 content written c cs ih =>
    obtain ⟨inside, rfl, rfl, hinside⟩ := ih h
    refine ⟨'\\' :: c :: inside, rfl, by simp, fun rest' ↦ ?_⟩
    rw [List.cons_append, List.cons_append, spanQuoted]
    exact hinside rest'
  | case3 => cases h
  | case4 content written cs hescape hc =>
    obtain ⟨rfl, rfl, rfl⟩ := by simpa using h
    refine ⟨[quote], rfl, by simp, fun rest' ↦ ?_⟩
    rw [List.singleton_append, spanQuoted, if_neg hc, if_pos rfl]
    · simp
    · exact fun c rest hquote ↦ absurd hquote hc
  | case5 content written c cs hescape hc hquote ih =>
    obtain ⟨inside, rfl, rfl, hinside⟩ := ih h
    refine ⟨c :: inside, rfl, by simp, fun rest' ↦ ?_⟩
    rw [List.cons_append, spanQuoted, if_neg hc, if_neg hquote]
    · exact hinside rest'
    · exact fun c' rest hc' ↦ absurd hc' hc

/-- Where no number starts, none starts if the text is cut off. -/
theorem startsNumber_append (h : startsNumber (c :: cs) = true) (rest : List Char) :
    startsNumber (c :: (cs ++ rest)) = true := by
  rw [startsNumber_cons_iff] at h ⊢
  refine h.imp_right ?_
  rintro ⟨rfl, d, tail, rfl, hd⟩
  exact ⟨rfl, d, tail ++ rest, rfl, hd⟩

/-- A number still starts where its text is all that there is. -/
theorem startsNumber_spanNumber (h : startsNumber (c :: cs) = true)
    (hlexeme : (spanNumber (c :: cs)).1 = c :: cs') : startsNumber (c :: cs') = true := by
  rw [startsNumber_cons_iff] at h ⊢
  refine h.imp_right ?_
  rintro ⟨rfl, d, tail, rfl, hd⟩
  have hdigits : (spanDigits (d :: tail)).1 = d :: tail.takeWhile Char.isDigit :=
    List.takeWhile_cons_of_pos hd
  have hpoint : spanDigits ('.' :: d :: tail) = ([], '.' :: d :: tail) := rfl
  rw [spanNumber, hpoint, spanFraction, hdigits] at hlexeme
  exact ⟨rfl, d, _, (List.cons.inj hlexeme).2.symm, hd⟩

/-- A symbol does not go on behind its characters. -/
theorem symbolAt?_lexeme {symbol : Symbol} (h : symbolAt? cs = some (symbol, lexeme, rest)) :
    symbolAt? lexeme = some (symbol, lexeme, []) := by
  unfold symbolAt? at h
  split at h <;> cases h <;> rfl

/-- **A word is the same word alone.** -/
theorem scan_lexeme (h : scan position c cs = .ok s) (position' : Nat) :
    ∃ tail, s.lexeme = c :: tail ∧ scan position' c tail = .ok ⟨s.token, s.lexeme, []⟩ := by
  obtain ⟨happend, hne⟩ := scan_append h
  obtain ⟨d, tail, hlexeme⟩ := List.exists_cons_of_ne_nil hne
  rw [hlexeme, List.cons_append] at happend
  obtain ⟨rfl, htail⟩ := List.cons.inj happend
  -- where no number starts in the whole text, none starts in the word
  have hcut (hnumber : ¬startsNumber (d :: cs) = true) : ¬startsNumber (d :: tail) = true :=
    fun hstarts ↦ hnumber (htail ▸ startsNumber_append hstarts s.rest)
  refine ⟨tail, hlexeme, scan_eq_ok_iff.2 ?_⟩
  cases scan_eq_ok_iff.1 h with
  | number hnumber hx =>
    dsimp only at hlexeme ⊢
    have hself := spanNumber_self (d :: cs)
    rw [hlexeme] at hself hx
    have halone := Scans.number (startsNumber_spanNumber hnumber hlexeme) (by rwa [hself])
    rwa [hself, ← hlexeme] at halone
  | text hnumber hquote hspan =>
    obtain ⟨inside, rfl, rfl, hinside⟩ := exists_spanQuoted_append hspan
    obtain rfl : inside = tail := (List.cons.inj hlexeme).2
    have halone := hinside []
    rw [List.append_nil] at halone
    exact .text (hcut hnumber) hquote halone
  | name hnumber hquote hname =>
    obtain rfl : cs.takeWhile continuesName = tail := (List.cons.inj hlexeme).2
    have hself : ∀ d ∈ cs.takeWhile continuesName, continuesName d = true :=
      fun _ ↦ List.mem_takeWhile_imp
    have halone := Scans.name (hcut hnumber) hquote hname
    rwa [List.takeWhile_eq_self_iff.2 hself, List.dropWhile_eq_nil_iff.2 hself] at halone
  | symbol hnumber hquote hname hsymbol =>
    have halone := symbolAt?_lexeme hsymbol
    dsimp only at hlexeme ⊢
    rw [hlexeme] at halone ⊢
    exact .symbol (hcut hnumber) hquote hname halone

/-- A word that is read alone is all that is read. -/
theorem tokens_lexeme (hc : isSeparator c = false) (h : scan position c cs = .ok s) :
    tokens s.lexeme = .ok ([⟨s.token, 0⟩], byteLength s.lexeme) := by
  obtain ⟨tail, hlexeme, halone⟩ := scan_lexeme h 0
  have hfrom : tokensFrom 0 [] s.lexeme = .ok ([⟨s.token, 0⟩], byteLength s.lexeme) := by
    rw [hlexeme, tokensFrom, if_neg (ne_true_of_eq_false hc)]
    split
    · rename_i hfault
      rw [halone] at hfault
      cases hfault
    · rename_i s' hs'
      obtain rfl := Except.ok.inj (halone.symm.trans hs')
      rw [tokensFrom, hlexeme, Nat.zero_add]
      rfl
  rw [tokens, hfrom]

/-- **What can be wrong with a word**: a quote that nothing closes, or a character with which no
word begins.  A number can always be read. -/
theorem fault_of_scan {fault : ExpressionError} (h : scan position c cs = .error fault) :
    fault = .unterminated position ∨
      fault = .unexpected c.toString "operand or operator" position := by
  unfold scan at h
  split at h
  · rename_i hnumber
    split at h
    · cases h
    · rename_i hnone
      have hsome := isSome_ofText?_spanNumber hnumber
      rw [hnone] at hsome
      cases hsome
  · split at h
    · split at h
      · cases h
      · exact .inl (Except.error.inj h).symm
    · split at h
      · cases h
      · split at h
        · cases h
        · exact .inr (Except.error.inj h).symm

end

/-! ## Tiles

The lexer goes over the text once.  The induction is on its run (`exists_tiles`): what has been read
so far and the place where it stands are given, and each step lays down one tile. -/

/-- **A tile**: the piece of a text between two positions, and the word that is written there, or
none for a separator. -/
structure Tile where
  token? : Option Token
  start : Nat
  stop : Nat

/-- **A tile fits a text**: it begins and ends at boundaries, and what lies between them is a
separator, or is cut into the word alone. -/
structure Tile.Fits (source : String) (tile : Tile) : Prop where
  start : IsBoundary source tile.start
  stop : IsBoundary source tile.stop
  separator : tile.token? = none →
    textBetween source tile.start tile.stop ∈ [" ", "\t", "\n", "\r"]
  word : ∀ t, tile.token? = some t → tokens (textBetween source tile.start tile.stop).toList =
    .ok ([⟨t, 0⟩], tile.stop - tile.start)

/-- **Some tiles lie side by side** from one position to another, each being longer than nothing. -/
def SideBySide : Nat → List Tile → Nat → Prop
  | start, [], stop => start = stop
  | start, tile :: tiles, stop =>
    tile.start = start ∧ start < tile.stop ∧ SideBySide tile.stop tiles stop

/-- The words on some tiles, each where its tile begins. -/
def placed (tiles : List Tile) : List Placed :=
  tiles.filterMap fun tile ↦ tile.token?.map (⟨·, tile.start⟩)

section

variable {source : String} {before cs : List Char} {position finish start stop : Nat}
  {read ts : List Placed} {tiles : List Tile} {fault : ExpressionError}

theorem SideBySide.le (h : SideBySide start tiles stop) : start ≤ stop := by
  induction tiles generalizing start with
  | nil => exact Nat.le_of_eq h
  | cons tile tiles ih =>
    obtain ⟨-, hlt, h⟩ := h
    exact Nat.le_trans (Nat.le_of_lt hlt) (ih h)

theorem SideBySide.start_le (h : SideBySide start tiles stop) :
    ∀ t ∈ placed tiles, start ≤ t.position := by
  induction tiles generalizing start with
  | nil => simp [placed]
  | cons tile tiles ih =>
    obtain ⟨rfl, hlt, h⟩ := h
    intro t ht
    rw [placed, List.mem_filterMap] at ht
    obtain ⟨other, hother, ht⟩ := ht
    rcases List.mem_cons.1 hother with rfl | hother
    · obtain ⟨token, -, rfl⟩ := Option.map_eq_some_iff.1 ht
      exact Nat.le_refl _
    · exact Nat.le_trans (Nat.le_of_lt hlt) (ih h t (List.mem_filterMap.2 ⟨other, hother, ht⟩))

/-- The words on tiles that lie side by side follow one another, and the end follows them. -/
theorem SideBySide.pairwise (h : SideBySide start tiles stop) :
    ((placed tiles).map (·.position) ++ [stop]).Pairwise (· < ·) := by
  induction tiles generalizing start with
  | nil => exact List.pairwise_singleton ..
  | cons tile tiles ih =>
    obtain ⟨rfl, hlt, h⟩ := h
    cases htoken : tile.token? with
    | none =>
      rw [placed, List.filterMap_cons_none (by rw [htoken]; rfl)]
      exact ih h
    | some t =>
      rw [placed, List.filterMap_cons_some (b := ⟨t, tile.start⟩) (by rw [htoken]; rfl),
        List.map_cons, List.cons_append]
      refine List.pairwise_cons.2 ⟨fun p hp ↦ ?_, ih h⟩
      rcases List.mem_append.1 hp with hp | hp
      · obtain ⟨t', ht', rfl⟩ := List.mem_map.1 hp
        exact Nat.lt_of_lt_of_le hlt (h.start_le t' ht')
      · obtain rfl := List.mem_singleton.1 hp
        exact Nat.lt_of_lt_of_le hlt h.le

/-- A separator is a tile, of one byte. -/
theorem Tile.fits_separator {c : Char} (hsource : source.toList = before ++ c :: cs)
    (hc : isSeparator c = true) :
    Tile.Fits source ⟨none, byteLength before, byteLength before + 1⟩ := by
  -- the separator is one byte long, so the tile ends where the rest of the text begins
  have hcut : source.toList = before ++ [c] ++ cs := by rw [hsource, List.append_assoc]; rfl
  have hlength := byteLength_append before [c]
  have htext : textBetween source (byteLength before) (byteLength before + byteLength [c]) =
      String.ofList [c] := textBetween_byteLength hsource
  rw [byteLength_separator hc] at hlength htext
  refine ⟨isBoundary_byteLength hsource, hlength ▸ isBoundary_byteLength hcut, fun _ ↦ ?_,
    fun t ht ↦ by cases ht⟩
  dsimp only
  rw [htext]
  simp only [isSeparator, Bool.or_eq_true, decide_eq_true_eq] at hc
  rcases hc with ((rfl | rfl) | rfl) | rfl <;> decide

/-- A word is a tile, as long as its text. -/
theorem Tile.fits_word {c : Char} {s : Scanned} (hsource : source.toList = before ++ c :: cs)
    (hc : isSeparator c = false) (h : scan position c cs = .ok s) :
    Tile.Fits source
      ⟨some s.token, byteLength before, byteLength before + byteLength s.lexeme⟩ := by
  obtain ⟨happend, -⟩ := scan_append h
  rw [← happend] at hsource
  have hcut : source.toList = before ++ s.lexeme ++ s.rest := by rw [hsource, List.append_assoc]
  have hstop := isBoundary_byteLength hcut
  rw [byteLength_append] at hstop
  refine ⟨isBoundary_byteLength hsource, hstop, (nomatch ·), fun t ht ↦ ?_⟩
  obtain rfl := Option.some.inj ht
  dsimp only
  rw [textBetween_byteLength hsource, String.toList_ofList, tokens_lexeme hc h,
    Nat.add_sub_cancel_left]

/-- **The words that are read lie on tiles** which go on from where the reading starts to the end of
the text. -/
theorem exists_tiles (hsource : source.toList = before ++ cs)
    (hposition : position = byteLength before)
    (h : tokensFrom position read cs = .ok (ts, finish)) :
    finish = source.utf8ByteSize ∧ ∃ tiles, ts = read.reverse ++ placed tiles ∧
      SideBySide position tiles finish ∧ ∀ tile ∈ tiles, tile.Fits source := by
  fun_induction tokensFrom position read cs generalizing before with
  | case1 position read =>
    obtain ⟨rfl, rfl⟩ := Prod.mk.inj (Except.ok.inj h)
    rw [List.append_nil] at hsource
    refine ⟨by rw [hposition, ← hsource, byteLength_toList], [], (List.append_nil _).symm, rfl, ?_⟩
    simp
  | case2 position read c cs hc ih =>
    have hlength := byteLength_append before [c]
    rw [byteLength_separator hc, ← hposition] at hlength
    have hrest : source.toList = before ++ [c] ++ cs := by rw [hsource, List.append_assoc]; rfl
    obtain ⟨hfinish, tiles, rfl, htiles, hfits⟩ := ih hrest hlength.symm h
    refine ⟨hfinish, ⟨none, position, position + 1⟩ :: tiles, rfl,
      ⟨rfl, Nat.lt_succ_self _, htiles⟩, List.forall_mem_cons.2 ⟨?_, hfits⟩⟩
    rw [hposition]
    exact Tile.fits_separator hsource hc
  | case3 => cases h
  | case4 position read c cs hc s hscan ih =>
    obtain ⟨happend, hne⟩ := scan_append hscan
    have hrest : source.toList = before ++ s.lexeme ++ s.rest := by
      rw [hsource, List.append_assoc, happend]
    obtain ⟨hfinish, tiles, rfl, htiles, hfits⟩ :=
      ih hrest (by rw [byteLength_append, hposition]) h
    refine ⟨hfinish, ⟨some s.token, position, position + byteLength s.lexeme⟩ :: tiles, ?_,
      ⟨rfl, Nat.lt_add_of_pos_right (byteLength_pos hne), htiles⟩,
      List.forall_mem_cons.2 ⟨?_, hfits⟩⟩
    · simp [placed]
    · rw [hposition]
      exact Tile.fits_word hsource (eq_false_of_ne_true hc) hscan

/-- **A fault names the character at its place**, which is a boundary. -/
theorem fault_of_tokensFrom (hsource : source.toList = before ++ cs)
    (hposition : position = byteLength before) (h : tokensFrom position read cs = .error fault) :
    ∃ place, IsBoundary source place ∧ place < source.utf8ByteSize ∧
      (fault = .unterminated place ∨
        fault = .unexpected (String.Pos.Raw.get source ⟨place⟩).toString "operand or operator"
          place) := by
  fun_induction tokensFrom position read cs generalizing before with
  | case1 => cases h
  | case2 position read c cs hc ih =>
    have hlength := byteLength_append before [c]
    rw [byteLength_separator hc, ← hposition] at hlength
    have hrest : source.toList = before ++ [c] ++ cs := by rw [hsource, List.append_assoc]; rfl
    exact ih hrest hlength.symm h
  | case3 position read c cs hc fault' hscan =>
    obtain rfl := Except.error.inj h
    refine ⟨position, hposition ▸ isBoundary_byteLength hsource, ?_, ?_⟩
    · rw [← byteLength_toList, hsource, byteLength_append, hposition]
      exact Nat.lt_add_of_pos_right (byteLength_pos (List.cons_ne_nil c cs))
    · rw [hposition, get_byteLength hsource, ← hposition]
      exact fault_of_scan hscan
  | case4 position read c cs hc s hscan ih =>
    obtain ⟨happend, -⟩ := scan_append hscan
    have hrest : source.toList = before ++ s.lexeme ++ s.rest := by
      rw [hsource, List.append_assoc, happend]
    exact ih hrest (by rw [byteLength_append, hposition]) h

end

/-- **Cutting a text into words loses nothing.**  The words follow one another and the end of the
text follows them; they lie on tiles which, side by side, cover the text, each of them being cut
into its word alone, or being a separator.  A text that cannot be cut has no words, or a fault at a
boundary which names the character that stands there; that a number cannot be read does not
occur. -/
theorem tokens_tile (source : String) :
    (∀ ts finish, tokens source.toList = .ok (ts, finish) →
      finish = source.utf8ByteSize ∧ (ts.map (·.position) ++ [finish]).Pairwise (· < ·) ∧
      ∃ tiles, placed tiles = ts ∧ SideBySide 0 tiles finish ∧
        ∀ tile ∈ tiles, tile.Fits source) ∧
    ∀ fault, tokens source.toList = .error fault →
      (∀ raw position, fault ≠ .invalidNumber raw position) ∧
      (fault = .empty ∨ ∃ position, IsBoundary source position ∧ position < source.utf8ByteSize ∧
        (fault = .unterminated position ∨
          fault = .unexpected (String.Pos.Raw.get source ⟨position⟩).toString
            "operand or operator" position)) := by
  have hstart : 0 = byteLength [] := rfl
  refine ⟨fun ts finish h ↦ ?_, fun fault h ↦ ?_⟩
  · have hfrom : tokensFrom 0 [] source.toList = .ok (ts, finish) := by
      rw [tokens] at h
      split at h
      · cases h
      · exact h
    obtain ⟨hfinish, tiles, rfl, htiles, hfits⟩ := exists_tiles rfl hstart hfrom
    exact ⟨hfinish, htiles.pairwise, tiles, rfl, htiles, hfits⟩
  · rw [tokens] at h
    split at h
    · obtain rfl := Except.error.inj h
      exact ⟨fun _ _ ↦ ExpressionError.noConfusion, .inl rfl⟩
    · obtain ⟨position, hboundary, hlt, hfault⟩ := fault_of_tokensFrom rfl hstart h
      refine ⟨?_, .inr ⟨position, hboundary, hlt, hfault⟩⟩
      rcases hfault with rfl | rfl <;> exact fun _ _ ↦ ExpressionError.noConfusion

/-- The quoted letter is two bytes long and the sign takes two characters. -/
theorem tokens_tile_accented :
    let ts : List Placed := [⟨.name "a", 0⟩, ⟨.symbol .atMost, 2⟩, ⟨.text "é", 5⟩]
    tokens "a <= 'é'".toList = .ok (ts, 9) ∧
      ∃ tiles, placed tiles = ts ∧ SideBySide 0 tiles 9 ∧
        ∀ tile ∈ tiles, tile.Fits "a <= 'é'" := by
  intro ts
  have htokens : tokens "a <= 'é'".toList = .ok (ts, 9) := by decide +kernel
  exact ⟨htokens, ((tokens_tile "a <= 'é'").1 ts 9 htokens).2.2⟩

end ReactiveForm
