import ReactiveForm.Settings.Messages

/-!
# Templates, expanded at once and one mark after the other

A template is made of characters and of two kinds of marks (`templatePieces`), and what it is to
show is each character as it stands and a text in place of each mark: `expandAtOnce`.  Messages are
made another way.  The label is put in first, and then the argument is put in wherever the text that
came out has its mark, be it that the template has it there, that the label brought it along, or
that the label and the characters around it make one up between them.

`expandTemplate_eq_iff` says when the two come to the same: exactly if there are no such marks
beyond those of the template, or if the argument is itself the mark, so that putting it in changes
nothing.

A mark begins with a character it does not have a second time.  So two occurrences of it never
overlap, and the marks of the template are found whatever is put in between them.
-/

set_option autoImplicit false
namespace ReactiveForm

/-! ## Words that do not overlap themselves -/

/-- The number of places of a text at which a word begins. -/
def occurrences (word : List Char) : List Char → Nat
  | [] => 0
  | c :: cs => occurrences word cs + if (afterWord? word (c :: cs)).isSome then 1 else 0

section

variable {word tail other cs rest xs : List Char} {b c : Char}

theorem afterWord?_append (word rest : List Char) : afterWord? word (word ++ rest) = some rest :=
  afterWord?_eq_some_iff.2 rfl

theorem afterWord?_of_ne (h : c ≠ b) : afterWord? (b :: tail) (c :: cs) = none := if_neg h.symm

theorem replaceWord_cons_of_eq_none (h : afterWord? word (c :: cs) = none) :
    replaceWord word other (c :: cs) = c :: replaceWord word other cs := by
  rw [replaceWord, h]

theorem replaceWord_append_self (tail other rest : List Char) (b : Char) :
    replaceWord (b :: tail) other (b :: tail ++ rest) =
      other ++ replaceWord (b :: tail) other rest := by
  rw [List.cons_append, replaceWord, ← List.cons_append, afterWord?_append]
  exact dif_pos (by simp)

/-- Nothing is replaced among characters with which the word does not begin. -/
theorem replaceWord_append (h : b ∉ xs) :
    replaceWord (b :: tail) other (xs ++ rest) = xs ++ replaceWord (b :: tail) other rest := by
  induction xs with
  | nil => rfl
  | cons x xs ih =>
    rw [List.mem_cons, not_or] at h
    rw [List.cons_append, replaceWord_cons_of_eq_none (afterWord?_of_ne (Ne.symm h.1)), ih h.2,
      List.cons_append]

theorem occurrences_cons_of_eq_none (h : afterWord? word (c :: cs) = none) :
    occurrences word (c :: cs) = occurrences word cs := by
  simp [occurrences, h]

theorem occurrences_le_cons (word cs : List Char) (c : Char) :
    occurrences word cs ≤ occurrences word (c :: cs) := Nat.le_add_right _ _

/-- The word does not begin among characters with which it does not begin. -/
theorem occurrences_append (h : b ∉ xs) :
    occurrences (b :: tail) (xs ++ rest) = occurrences (b :: tail) rest := by
  induction xs with
  | nil => rfl
  | cons x xs ih =>
    rw [List.mem_cons, not_or] at h
    rw [List.cons_append, occurrences_cons_of_eq_none (afterWord?_of_ne (Ne.symm h.1)), ih h.2]

theorem occurrences_append_self (h : b ∉ tail) (rest : List Char) :
    occurrences (b :: tail) (b :: tail ++ rest) = occurrences (b :: tail) rest + 1 := by
  rw [List.cons_append, occurrences, ← List.cons_append, afterWord?_append, occurrences_append h]
  rfl

/-- **What replacing does to the length**: each occurrence is replaced, since no two of them
overlap. -/
theorem length_replaceWord (h : b ∉ tail) (other : List Char) : ∀ cs : List Char,
    (replaceWord (b :: tail) other cs).length + (b :: tail).length * occurrences (b :: tail) cs =
      cs.length + other.length * occurrences (b :: tail) cs
  | [] => by simp [replaceWord, occurrences]
  | c :: cs => by
    cases hafter : afterWord? (b :: tail) (c :: cs) with
    | none =>
      have ih := length_replaceWord h other cs
      rw [replaceWord_cons_of_eq_none hafter, occurrences_cons_of_eq_none hafter]
      simp only [List.length_cons] at ih ⊢
      omega
    | some rest =>
      have hsplit := afterWord?_eq_some_iff.1 hafter
      have hshorter : rest.length < (c :: cs).length := by
        rw [hsplit, List.length_append, List.length_cons]
        omega
      have ih := length_replaceWord h other rest
      rw [hsplit, replaceWord_append_self, occurrences_append_self h, List.length_append,
        List.length_append, Nat.mul_add_one, Nat.mul_add_one]
      omega
termination_by cs => cs.length
decreasing_by
  · exact Nat.lt_succ_self _
  · exact hshorter

/-! ## Texts with slots -/

/-- The text with something in its slots. -/
def fillSlots (other : List Char) (slots : List (Option Char)) : List Char :=
  slots.flatMap fun
    | some c => [c]
    | none => other

variable {slots : List (Option Char)}

theorem fillSlots_cons_some (other : List Char) (c : Char) (slots : List (Option Char)) :
    fillSlots other (some c :: slots) = c :: fillSlots other slots := rfl

theorem fillSlots_cons_none (other : List Char) (slots : List (Option Char)) :
    fillSlots other (none :: slots) = other ++ fillSlots other slots := rfl

theorem length_fillSlots (other more : List Char) (slots : List (Option Char)) :
    (fillSlots other slots).length + more.length * slots.count none =
      (fillSlots more slots).length + other.length * slots.count none := by
  induction slots with
  | nil => rfl
  | cons slot slots ih =>
    cases slot with
    | none =>
      rw [fillSlots_cons_none, fillSlots_cons_none, List.count_cons_self, List.length_append,
        List.length_append, Nat.mul_add_one, Nat.mul_add_one]
      omega
    | some c =>
      rw [fillSlots_cons_some, fillSlots_cons_some, List.count_cons_of_ne (by simp),
        List.length_cons, List.length_cons]
      omega

/-- With the word in all slots it occurs at least so often. -/
theorem count_none_le_occurrences (h : b ∉ tail) (slots : List (Option Char)) :
    slots.count none ≤ occurrences (b :: tail) (fillSlots (b :: tail) slots) := by
  induction slots with
  | nil => exact Nat.zero_le _
  | cons slot slots ih =>
    cases slot with
    | none =>
      rw [fillSlots_cons_none, List.count_cons_self, occurrences_append_self h]
      exact Nat.succ_le_succ ih
    | some c =>
      rw [fillSlots_cons_some, List.count_cons_of_ne (by simp)]
      exact Nat.le_trans ih (occurrences_le_cons _ _ c)

/-- Characters other than the first one of the word stand in no slot that holds the word. -/
theorem exists_slots_of_append (h : b ∉ xs) : ∀ {slots : List (Option Char)},
    fillSlots (b :: tail) slots = xs ++ rest →
      ∃ slots', slots = xs.map some ++ slots' ∧ rest = fillSlots (b :: tail) slots' := by
  induction xs with
  | nil => exact fun hfill ↦ ⟨_, rfl, hfill.symm⟩
  | cons x xs ih =>
    intro slots hfill
    rw [List.mem_cons, not_or] at h
    match slots with
    | [] => cases hfill
    | none :: slots => exact absurd (List.cons.inj hfill).1 h.1
    | some c :: slots =>
      rw [fillSlots_cons_some, List.cons_append, List.cons.injEq] at hfill
      obtain ⟨rfl, hfill⟩ := hfill
      obtain ⟨slots', rfl, hrest⟩ := ih h.2 hfill
      exact ⟨slots', rfl, hrest⟩

/-- An occurrence that does not begin in a slot lies between the slots. -/
theorem exists_slots_of_afterWord? (h : b ∉ tail)
    (hafter : afterWord? (b :: tail) (fillSlots (b :: tail) (some c :: slots)) = some rest) :
    ∃ slots', some c :: slots = (b :: tail).map some ++ slots' ∧
      rest = fillSlots (b :: tail) slots' := by
  have hsplit := afterWord?_eq_some_iff.1 hafter
  rw [fillSlots_cons_some, List.cons_append, List.cons.injEq] at hsplit
  obtain ⟨rfl, hfill⟩ := hsplit
  obtain ⟨slots', rfl, hrest⟩ := exists_slots_of_append h hfill
  exact ⟨slots', rfl, hrest⟩

/-- The word stands in its slots only, if no character between them is its first one. -/
theorem occurrences_fillSlots_of_not_mem (h : b ∉ tail) {slots : List (Option Char)}
    (hslots : some b ∉ slots) :
    occurrences (b :: tail) (fillSlots (b :: tail) slots) = slots.count none := by
  induction slots with
  | nil => rfl
  | cons slot slots ih =>
    rw [List.mem_cons, not_or] at hslots
    cases slot with
    | none =>
      rw [fillSlots_cons_none, List.count_cons_self, occurrences_append_self h, ih hslots.2]
    | some c =>
      have hne : c ≠ b := fun heq ↦ hslots.1 (congrArg some heq.symm)
      rw [fillSlots_cons_some, List.count_cons_of_ne (by simp),
        occurrences_cons_of_eq_none (afterWord?_of_ne hne), ih hslots.2]

theorem fillSlots_map_append (other cs : List Char) (slots : List (Option Char)) :
    fillSlots other (cs.map some ++ slots) = cs ++ fillSlots other slots := by
  induction cs with
  | nil => rfl
  | cons c cs ih => rw [List.map_cons, List.cons_append, fillSlots_cons_some, ih, List.cons_append]

theorem count_none_map_some (cs : List Char) : (cs.map some).count none = 0 :=
  List.count_eq_zero.2 (by simp)

/-- Of replacements that each change the length by the same, at least one more makes no difference
only if none does. -/
private theorem eq_of_excess {long short total more fewer a b : Nat}
    (hmore : long + b * more = total + a * more) (hfewer : short + b * fewer = total + a * fewer)
    (hle : fewer ≤ more) (h : a + long = b + short) : a = b := by
  obtain ⟨k, rfl⟩ := Nat.exists_eq_add_of_le hle
  refine Nat.eq_of_mul_eq_mul_right (Nat.succ_pos k) ?_
  simp only [Nat.mul_add, Nat.mul_succ] at hmore hfewer ⊢
  omega

/-- **When replacing a word comes to filling the slots it stands in**: if it stands nowhere else, or
if it is replaced by itself. -/
theorem replaceWord_fillSlots_iff (h : b ∉ tail) (other : List Char) :
    ∀ slots : List (Option Char),
      replaceWord (b :: tail) other (fillSlots (b :: tail) slots) = fillSlots other slots ↔
        other = b :: tail ∨
          occurrences (b :: tail) (fillSlots (b :: tail) slots) = slots.count none
  | [] => iff_of_true (by simp [fillSlots, replaceWord]) (.inr rfl)
  | none :: slots => by
    rw [fillSlots_cons_none, fillSlots_cons_none, replaceWord_append_self,
      List.append_cancel_left_eq, occurrences_append_self h, List.count_cons_self,
      Nat.add_right_cancel_iff]
    exact replaceWord_fillSlots_iff h other slots
  | some c :: slots => by
    cases hafter : afterWord? (b :: tail) (fillSlots (b :: tail) (some c :: slots)) with
    | none =>
      rw [fillSlots_cons_some] at hafter
      rw [fillSlots_cons_some, fillSlots_cons_some, replaceWord_cons_of_eq_none hafter,
        occurrences_cons_of_eq_none hafter, List.count_cons_of_ne (by simp), List.cons_inj_right]
      exact replaceWord_fillSlots_iff h other slots
    | some rest =>
      obtain ⟨slots', hslots, rfl⟩ := exists_slots_of_afterWord? h hafter
      have ih := replaceWord_fillSlots_iff h other slots'
      have hle := count_none_le_occurrences h slots'
      rw [hslots, fillSlots_map_append, fillSlots_map_append, replaceWord_append_self,
        occurrences_append_self h, List.count_append, count_none_map_some, Nat.zero_add]
      refine ⟨fun heq ↦ .inl ?_, ?_⟩
      · -- the lengths can only agree if the replacement is as long as the word
        have hlength := congrArg List.length heq
        rw [List.length_append, List.length_append] at hlength
        exact (List.append_inj heq (eq_of_excess (length_replaceWord h other _)
          (length_fillSlots other (b :: tail) slots') hle hlength)).1
      · rintro (hother | hcount)
        · rw [ih.2 (.inl hother), hother]
        · omega
termination_by slots => slots.length
decreasing_by
  · simp
  · simp
  · have hlength := congrArg List.length hslots
    simp only [List.length_cons, List.length_append, List.length_map] at hlength ⊢
    omega

end

/-! ## Templates -/

/-- What a template is made of. -/
inductive TemplatePiece where
  | character (c : Char)
  | label
  | value

/-- What a piece shows. -/
def TemplatePiece.shown (label value : List Char) : TemplatePiece → List Char
  | .character c => [c]
  | .label => label
  | .value => value

/-- **The pieces of a template**, read from left to right. -/
def templatePieces (cs : List Char) : List TemplatePiece :=
  match cs with
  | [] => []
  | c :: cs =>
    match _hlabel : afterWord? labelMark.toList (c :: cs) with
    | some rest => .label :: templatePieces rest
    | none =>
      match _hvalue : afterWord? valueMark.toList (c :: cs) with
      | some rest => .value :: templatePieces rest
      | none => .character c :: templatePieces cs
termination_by cs.length
decreasing_by
  · have hlength := congrArg List.length (afterWord?_eq_some_iff.1 _hlabel)
    simp [labelMark] at hlength ⊢
    omega
  · have hlength := congrArg List.length (afterWord?_eq_some_iff.1 _hvalue)
    simp [valueMark] at hlength ⊢
    omega
  · simp

/-- **The text of a template with both marks replaced at once.** -/
def expandAtOnce (template label value : String) : String :=
  String.ofList ((templatePieces template.toList).flatMap (·.shown label.toList value.toList))

/-! ### The slots of a template -/

variable {template label value : List Char}

theorem labelMark_toList : labelMark.toList = '\x7b' :: "label\x7d".toList := rfl

theorem valueMark_toList : valueMark.toList = '\x7b' :: "value\x7d".toList := rfl

theorem not_mem_labelMark : '\x7b' ∉ "label\x7d".toList := by decide

theorem not_mem_valueMark : '\x7b' ∉ "value\x7d".toList := by decide

/-- What a piece leaves to be filled with the argument. -/
def TemplatePiece.slots (label : List Char) : TemplatePiece → List (Option Char)
  | .character c => [some c]
  | .label => label.map some
  | .value => [none]

/-- The characters of a template with the label put in, and a slot for each place of the
argument. -/
def templateSlots (label template : List Char) : List (Option Char) :=
  (templatePieces template).flatMap (·.slots label)

theorem fillSlots_templateSlots (label template value : List Char) :
    fillSlots value (templateSlots label template) =
      (templatePieces template).flatMap (·.shown label value) := by
  rw [fillSlots, templateSlots, List.flatMap_assoc]
  congr 1
  funext piece
  cases piece with
  | character c => rfl
  | label =>
    have hfilled := fillSlots_map_append value label []
    rw [List.append_nil] at hfilled
    exact hfilled.trans (List.append_nil label)
  | value => simp [TemplatePiece.slots, TemplatePiece.shown]

/-- Putting in the label first leaves the marks of the argument in their slots. -/
theorem replaceWord_labelMark (label template : List Char) :
    replaceWord labelMark.toList label template =
      fillSlots valueMark.toList (templateSlots label template) := by
  rw [fillSlots_templateSlots]
  fun_induction templatePieces template with
  | case1 => rw [replaceWord]; rfl
  | case2 c cs rest hlabel ih =>
    rw [afterWord?_eq_some_iff.1 hlabel, List.flatMap_cons, ← ih, labelMark_toList,
      replaceWord_append_self]
    rfl
  | case3 c cs hlabel rest hvalue ih =>
    have hsplit := afterWord?_eq_some_iff.1 hvalue
    rw [hsplit, valueMark_toList, List.cons_append] at hlabel
    rw [hsplit, List.flatMap_cons, ← ih, valueMark_toList, List.cons_append,
      replaceWord_cons_of_eq_none hlabel, labelMark_toList, replaceWord_append not_mem_valueMark]
    rfl
  | case4 c cs hlabel hvalue ih =>
    rw [List.flatMap_cons, ← ih, replaceWord_cons_of_eq_none hlabel]
    rfl

/-- **There is a slot for each mark of the argument.** -/
theorem count_none_templateSlots (label template : List Char) :
    (templateSlots label template).count none = occurrences valueMark.toList template := by
  rw [templateSlots]
  fun_induction templatePieces template with
  | case1 => rfl
  | case2 c cs rest hlabel ih =>
    have hvalue : afterWord? valueMark.toList (labelMark.toList ++ rest) = none := rfl
    rw [afterWord?_eq_some_iff.1 hlabel, List.flatMap_cons, List.count_append, ih,
      TemplatePiece.slots, count_none_map_some, Nat.zero_add]
    rw [labelMark_toList, List.cons_append] at hvalue ⊢
    rw [occurrences_cons_of_eq_none hvalue, valueMark_toList, occurrences_append not_mem_labelMark]
  | case3 c cs hlabel rest hvalue ih =>
    rw [afterWord?_eq_some_iff.1 hvalue, List.flatMap_cons, List.count_append, ih, valueMark_toList,
      occurrences_append_self not_mem_valueMark, Nat.add_comm]
    rfl
  | case4 c cs hlabel hvalue ih =>
    rw [List.flatMap_cons, List.count_append, ih, occurrences_cons_of_eq_none hvalue]
    exact Nat.zero_add _

/-! ## The two ways of expanding -/

/-- **When expanding one mark after the other is expanding them at once**: if the argument is its
own mark, or if the template with the label put in has no more marks of the argument than the
template. -/
theorem expandTemplate_eq_iff (template label value : String) :
    expandTemplate template label value = expandAtOnce template label value ↔
      value = valueMark ∨
        occurrences valueMark.toList (expandAtOnce template label valueMark).toList =
          occurrences valueMark.toList template.toList := by
  rw [expandTemplate, expandAtOnce, expandAtOnce, String.toList_ofList, ← fillSlots_templateSlots,
    ← fillSlots_templateSlots, replaceWord_labelMark,
    ← count_none_templateSlots label.toList template.toList, String.ofList_inj, valueMark_toList,
    replaceWord_fillSlots_iff not_mem_valueMark, ← valueMark_toList, String.toList_inj]

/-- A label that is itself the mark of the argument is not shown, not even by a template as simple
as the one for numbers that are too small. -/
theorem expandTemplate_loses_label :
    expandTemplate ({} : Messages).min valueMark "3" = "3 must be at least 3" ∧
      expandAtOnce ({} : Messages).min valueMark "3" = "\x7bvalue\x7d must be at least 3" ∧
      expandTemplate ({} : Messages).min valueMark "3" ≠
        expandAtOnce ({} : Messages).min valueMark "3" := by
  decide +kernel

/-- **A label without an opening brace is shown as it stands**, if the template has such braces in
its marks only. -/
theorem expandTemplate_of_not_mem {template label : String} (value : String)
    (htemplate : '\x7b' ∉ (expandAtOnce template "" "").toList) (hlabel : '\x7b' ∉ label.toList) :
    expandTemplate template label value = expandAtOnce template label value := by
  have hslots : some '\x7b' ∉ templateSlots label.toList template.toList := by
    rw [expandAtOnce, String.toList_ofList, List.mem_flatMap] at htemplate
    rw [templateSlots, List.mem_flatMap]
    rintro ⟨piece, hpiece, hslot⟩
    cases piece with
    | character c =>
      exact htemplate ⟨_, hpiece, by simpa [TemplatePiece.slots, TemplatePiece.shown] using hslot⟩
    | label => exact hlabel (by simpa [TemplatePiece.slots] using hslot)
    | value => simp [TemplatePiece.slots] at hslot
  rw [expandTemplate, expandAtOnce, ← fillSlots_templateSlots, replaceWord_labelMark,
    valueMark_toList, String.ofList_inj, replaceWord_fillSlots_iff not_mem_valueMark]
  exact .inr (occurrences_fillSlots_of_not_mem not_mem_valueMark hslots)

example : expandTemplate ({} : Messages).min "Age" "3" = "Age must be at least 3" := by
  decide +kernel

end ReactiveForm
