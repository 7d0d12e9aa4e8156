import ReactiveForm.Proofs.Table
import ReactiveForm.Value.Path

/-!
# Paths and their segments

A path without a point is its own one segment, a path that is put together from two paths has the
segments of both, and no segment has a point in it.  A row number written in decimal digits reads
back as itself, as long as it fits a machine word (`indexOfText?_toString`).

Among values that hold no dotted name flat (`Record.Plain`) looking up a dotted path always
descends, and looking up a plain name never does.
-/

set_option autoImplicit false
namespace ReactiveForm

/-! ## Segments -/

theorem partsAt_of_notMem {separator : Char} {cs : List Char} (h : separator ∉ cs) :
    partsAt separator cs = [cs] := by
  induction cs with
  | nil => rfl
  | cons c cs ih =>
    rw [List.mem_cons, not_or] at h
    rw [partsAt, if_neg (Ne.symm h.1), ih h.2]
    rfl

theorem partsAt_ne_nil (separator : Char) (cs : List Char) : partsAt separator cs ≠ [] := by
  induction cs with
  | nil => simp [partsAt]
  | cons c cs ih =>
    rw [partsAt]
    split
    · exact List.cons_ne_nil _ _
    · simpa using ih

theorem partsAt_append (separator : Char) (cs rest : List Char) :
    partsAt separator (cs ++ separator :: rest) =
      partsAt separator cs ++ partsAt separator rest := by
  induction cs with
  | nil => simp [partsAt]
  | cons c cs ih =>
    rw [List.cons_append, partsAt, partsAt, ih]
    split
    · rfl
    · cases hparts : partsAt separator cs with
      | nil => exact absurd hparts (partsAt_ne_nil separator cs)
      | cons first parts => rfl

theorem notMem_of_mem_partsAt {separator : Char} {cs part : List Char}
    (h : part ∈ partsAt separator cs) : separator ∉ part := by
  induction cs generalizing part with
  | nil =>
    rw [partsAt, List.mem_singleton] at h
    simp [h]
  | cons c cs ih =>
    rw [partsAt] at h
    split at h
    · rcases List.mem_cons.1 h with rfl | h
      · simp
      · exact ih h
    · rename_i hc
      cases hparts : partsAt separator cs with
      | nil => exact absurd hparts (partsAt_ne_nil separator cs)
      | cons first parts =>
        rw [hparts, List.modifyHead_cons] at h
        rcases List.mem_cons.1 h with rfl | h
        · have hfirst := ih (hparts ▸ List.mem_cons_self)
          simpa [hfirst] using Ne.symm hc
        · exact ih (hparts ▸ List.mem_cons_of_mem _ h)

theorem isDotted_eq_false_iff {path : String} : isDotted path = false ↔ '.' ∉ path.toList := by
  simp [isDotted]

theorem segments_of_not_isDotted {path : String} (h : isDotted path = false) :
    segments path = [path] := by
  rw [segments, partsAt_of_notMem (isDotted_eq_false_iff.1 h)]
  simp

/-- The segments of two paths with a point between them are those of the one, then those of the
other. -/
theorem segments_append (path rest : String) :
    segments (path ++ "." ++ rest) = segments path ++ segments rest := by
  have hlist : (path ++ "." ++ rest).toList = path.toList ++ '.' :: rest.toList := by simp
  rw [segments, hlist, partsAt_append, List.map_append, segments, segments]

theorem segments_ne_nil (path : String) : segments path ≠ [] := by
  simpa [segments] using partsAt_ne_nil '.' path.toList

theorem isDotted_of_mem_segments {path segment : String} (h : segment ∈ segments path) :
    isDotted segment = false := by
  obtain ⟨part, hpart, rfl⟩ := List.mem_map.1 h
  exact isDotted_eq_false_iff.2 (by simpa using notMem_of_mem_partsAt hpart)

/-! ## Row numbers -/

/-- The word of a row number has digits only, and no point. -/
theorem isDotted_toString (i : Nat) : isDotted (toString i) = false := by
  rw [isDotted_eq_false_iff, Nat.toString_eq_repr, Nat.toList_repr]
  intro h
  have := Nat.isDigit_of_mem_toDigits (by decide) (by decide) h
  exact absurd this (by decide)

/-- Different row numbers have different words. -/
theorem toString_inj {i j : Nat} (h : toString i = toString j) : i = j := by
  have hdigits := congrArg String.toList h
  rw [Nat.toString_eq_repr, Nat.toString_eq_repr, Nat.toList_repr, Nat.toList_repr] at hdigits
  rw [← @Nat.ofDigitChars_ten_toDigits i, hdigits, Nat.ofDigitChars_ten_toDigits]

/-- **A row number reads back as itself**, if it fits a machine word. -/
theorem indexOfText?_toString {i : Nat} (h : i < UInt64.size) :
    indexOfText? (toString i) = some i := by
  have hlist : (toString i).toList = Nat.toDigits 10 i := by
    rw [Nat.toString_eq_repr, Nat.toList_repr]
  have hdigit : ∀ c ∈ Nat.toDigits 10 i, c.isDigit := fun c hc ↦
    Nat.isDigit_of_mem_toDigits (by decide) (by decide) hc
  have hvalue : natOfDigits (Nat.toDigits 10 i) = i := Nat.ofDigitChars_ten_toDigits
  rw [indexOfText?, hlist]
  split
  · rename_i rest hplus
    exact absurd (hdigit '+' (hplus ▸ List.mem_cons_self)) (by decide)
  · have hne : (!(Nat.toDigits 10 i).isEmpty) = true := by simp [Nat.toDigits_ne_nil]
    simp only [hne, List.all_eq_true.2 hdigit, hvalue, h, Bool.and_self, if_true]

/-! ## Plain records -/

/-- **A record that holds no dotted name flat.** -/
def Record.Plain (values : Record) : Prop := ∀ name ∈ Table.names values, isDotted name = false

instance (values : Record) : Decidable values.Plain :=
  inferInstanceAs (Decidable (∀ name ∈ Table.names values, _))

namespace Record

variable {values : Record} {path : String}

/-- A plain name is looked up as it is. -/
theorem at?_of_not_isDotted (h : isDotted path = false) :
    values.at? path = Table.find? values path := by
  rw [at?, segments_of_not_isDotted h]
  cases hv : Table.find? values path with
  | some v => rfl
  | none => simp [Value.descend?, Value.child?, hv]

theorem Plain.find?_eq_none (h : values.Plain) (hpath : isDotted path = true) :
    Table.find? values path = none :=
  Table.find?_eq_none_iff.2 fun hmem ↦ absurd (h _ hmem) (by simp [hpath])

/-- **What is found in a record that is laid over another one**: a whole name of the upper one, a
whole name of the lower one, and else what the record with the first segment holds. -/
theorem at?_overlay (lower : Record) {upper : Record} (h : Table.Ordered upper) (path : String) :
    Record.at? (lower.overlay upper) path =
      ((Table.find? upper path).or ((Table.find? lower path).or
        (if (segments path).head?.any (Table.has upper) then upper.at? path
          else lower.at? path))) := by
  rw [at?, Table.find?_overlay lower h]
  cases hupper : Table.find? upper path with
  | some v => rfl
  | none =>
    cases hlower : Table.find? lower path with
    | some v => rfl
    | none =>
      simp only [Option.or_none, Option.none_or, at?, hupper, hlower]
      cases hpath : segments path with
      | nil => exact absurd hpath (segments_ne_nil path)
      | cons first rest =>
        rw [Value.descend?, Value.descend?, Value.descend?, Value.child?, Value.child?,
          Value.child?, Table.find?_overlay lower h, List.head?_cons, Option.any_some, Table.has]
        cases Table.find? upper first <;> rfl

/-- What is found in an overlay is the same where the same is found in its two records, whole names
apart. -/
theorem at?_overlay_congr {lower lower' upper upper' : Record} (h : Table.Ordered upper)
    (h' : Table.Ordered upper') (hname : Table.find? upper path = Table.find? upper' path)
    (hhead : (segments path).head?.any (Table.has upper) =
      (segments path).head?.any (Table.has upper'))
    (hupper : upper.at? path = upper'.at? path)
    (hname' : Table.find? lower path = Table.find? lower' path)
    (hlower : lower.at? path = lower'.at? path) :
    Record.at? (lower.overlay upper) path = Record.at? (lower'.overlay upper') path := by
  rw [at?_overlay lower h, at?_overlay lower' h', hname, hhead, hupper, hname', hlower]

end Record

end ReactiveForm
