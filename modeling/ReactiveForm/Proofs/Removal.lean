import ReactiveForm.Proofs.ReadBack

/-!
# What clearing a path leaves

Clearing takes away what is found at a path.  Where nothing is found there is nothing to take away,
and one would expect the values to stay as they are.  Both hold with one exception each.

A way may *break off* (`Value.BreaksOff`): it leads to a value that is no list and does not have the
next segment, and that is no record either if this segment is the last one.  Clearing makes such a
way up to its last segment, as a write of an empty record there would (`BreaksOff.writeAt_none`):
missing records are made, and a text or a number gives way to a record.  On any other way on which
nothing is found, clearing changes nothing; the way comes to a list without the row, or to the
record that could have had the field (`Value.writeAt_none_eq_self`).

A path that is held flat may *cover* a value that is found by descending (`Record.Covers`).  When
the flat one is taken away, the other one is found in its place.

`Record.write_none_clears` says that there are no other exceptions.
-/

set_option autoImplicit false
namespace ReactiveForm

namespace Value

variable {v child : Value} {segment : String} {p rest : List String}

/-! ## Ways that break off -/

/-- **A way that breaks off**: it leads to a value that is no list and does not have the next
segment, and that is no record if this segment is the last one. -/
inductive BreaksOff : Value → List String → Prop where
  | here {v : Value} {segment : String} {rest : List String} (hchild : v.child? segment = none)
      (hlist : ¬∃ items, v = .list items) (hlast : rest = [] → v.isRecord = false) :
      BreaksOff v (segment :: rest)
  | step {v child : Value} {segment : String} {rest : List String}
      (hchild : v.child? segment = some child) (h : BreaksOff child rest) :
      BreaksOff v (segment :: rest)

theorem not_breaksOff_nil (v : Value) : ¬v.BreaksOff [] := nofun

theorem BreaksOff.ne_nil (h : v.BreaksOff p) : p ≠ [] := by
  rintro rfl
  exact not_breaksOff_nil v h

theorem breaksOff_cons_iff_of_some (h : v.child? segment = some child) :
    v.BreaksOff (segment :: rest) ↔ child.BreaksOff rest := by
  refine ⟨fun hbreaks ↦ ?_, .step h⟩
  cases hbreaks with
  | here hchild =>
    rw [h] at hchild
    cases hchild
  | step hchild hbreaks => exact Option.some.inj (hchild.symm.trans h) ▸ hbreaks

theorem breaksOff_cons_iff_of_none (h : v.child? segment = none) :
    v.BreaksOff (segment :: rest) ↔
      (¬∃ items, v = .list items) ∧ (rest = [] → v.isRecord = false) := by
  refine ⟨fun hbreaks ↦ ?_, fun ⟨hlist, hlast⟩ ↦ .here h hlist hlast⟩
  cases hbreaks with
  | here _ hlist hlast => exact ⟨hlist, hlast⟩
  | step hchild =>
    rw [h] at hchild
    cases hchild

instance decidableBreaksOff : (v : Value) → (p : List String) → Decidable (v.BreaksOff p)
  | v, [] => isFalse (not_breaksOff_nil v)
  | v, segment :: rest =>
    match h : v.child? segment with
    | some child =>
      @decidable_of_iff' _ _ (breaksOff_cons_iff_of_some h) (decidableBreaksOff child rest)
    | none => decidable_of_iff' _ (breaksOff_cons_iff_of_none h)

/-- A way with one segment breaks off where there is nothing to descend into. -/
theorem BreaksOff.container_eq (h : v.BreaksOff [segment]) : v.container = .record [] := by
  cases h with
  | here _ hlist hlast =>
    cases v with
    | list items => exact absurd ⟨items, rfl⟩ hlist
    | record fields => cases hlast rfl
    | _ => rfl
  | step _ h => exact absurd h (not_breaksOff_nil _)

/-! ## Clearing along a way that breaks off -/

/-- Two writes leave the same, if they leave the same in the place that they come through first. -/
theorem writeAt_congr {x y : Option Value} {other : List String} (h : v.child? segment = some child)
    (hstep : stepInto x rest (some child) = stepInto y other (some child)) :
    v.writeAt x (segment :: rest) = v.writeAt y (segment :: other) := by
  cases v with
  | record fields =>
    have hfind : Table.find? fields segment = some child := h
    rw [writeAt_record, writeAt_record, hfind, hstep]
  | list items =>
    obtain ⟨i, hi, hitem⟩ := Option.bind_eq_some_iff.1 h
    rw [writeAt_list, writeAt_list, modifyRow, modifyRow, hi]
    refine congrArg Value.list (modify_congr fun item hrow ↦ ?_)
    obtain rfl := Option.some.inj (hitem.symm.trans hrow)
    rw [hstep]
  | _ => cases h

/-- Clearing further down leaves in a place what a write of an empty record one segment earlier
leaves there, if it does so in the value that is written into. -/
theorem stepInto_none (hrest : rest ≠ []) {c : Option Value} (hvalue : c.getD (.record []) = v)
    (hlast : ∀ segment, rest = [segment] → v.container = .record [])
    (h : v.container.writeAt none rest = v.container.writeAt (some (.record [])) rest.dropLast) :
    stepInto none rest c = stepInto (some (.record [])) rest.dropLast c := by
  rw [stepInto_of_ne_nil hrest, hvalue, h]
  cases rest with
  | nil => exact absurd rfl hrest
  | cons segment rest =>
    cases rest with
    | nil => exact congrArg some (hlast segment rfl)
    | cons next rest =>
      rw [List.dropLast_cons_of_ne_nil (List.cons_ne_nil _ _),
        stepInto_of_ne_nil (List.cons_ne_nil _ _), hvalue]

theorem writeAt_none_empty (hp : p ≠ []) :
    (Value.record []).writeAt none p =
      (Value.record []).writeAt (some (.record [])) p.dropLast := by
  induction p with
  | nil => exact absurd rfl hp
  | cons segment rest ih =>
    by_cases hrest : rest = []
    · subst hrest
      rfl
    · rw [List.dropLast_cons_of_ne_nil hrest, writeAt_record, writeAt_record, Table.find?_nil,
        stepInto_none (c := none) hrest rfl (fun _ _ ↦ rfl) (ih hrest)]

/-- **Clearing along a way that breaks off** writes an empty record where the last segment would be
looked for. -/
theorem BreaksOff.writeAt_none (h : v.BreaksOff p) :
    v.container.writeAt none p = v.container.writeAt (some (.record [])) p.dropLast := by
  induction h with
  | @here v segment rest hchild hlist hlast =>
    by_cases hrest : rest = []
    · subst hrest
      rw [(BreaksOff.here hchild hlist hlast).container_eq]
      exact writeAt_none_empty (List.cons_ne_nil _ _)
    · -- from here on the way is made
      obtain ⟨fields, hcontainer, hfields⟩ := (list_or_record v).resolve_left hlist
      rw [hcontainer, List.dropLast_cons_of_ne_nil hrest, writeAt_record, writeAt_record,
        ← hfields, hchild,
        stepInto_none (c := none) hrest rfl (fun _ _ ↦ rfl) (writeAt_none_empty hrest)]
  | @step v child segment rest hchild h ih =>
    have hlast : ∀ segment, rest = [segment] → child.container = .record [] := by
      rintro segment rfl
      exact h.container_eq
    rw [container_eq_self_of_child? hchild, List.dropLast_cons_of_ne_nil h.ne_nil]
    exact writeAt_congr hchild (stepInto_none h.ne_nil rfl hlast ih)

/-- **A write along a way that breaks off changes something**: it makes the next segment, or has a
value give way to a record. -/
theorem BreaksOff.writeAt_ne_self (h : v.BreaksOff p) (x : Option Value) :
    v.container.writeAt x p ≠ v := by
  induction h with
  | @here v segment rest hchild hlist hlast =>
    obtain ⟨fields, hcontainer, hfields⟩ := (list_or_record v).resolve_left hlist
    rw [hcontainer]
    intro heq
    by_cases hrest : rest = []
    · -- what has been no record is one now
      have hrecord := hlast hrest
      rw [← heq, writeAt_record] at hrecord
      cases hrecord
    · -- the next segment has been made
      have hmade := child?_writeAt_of_find?_eq_none (x := x) (hfields segment ▸ hchild) hrest
      rw [heq, hchild] at hmade
      cases hmade
  | @step v child segment rest hchild h ih =>
    rw [container_eq_self_of_child? hchild]
    intro heq
    have hwritten := child?_writeAt (x := x) hchild h.ne_nil
    rw [heq, hchild] at hwritten
    exact ih (Option.some.inj hwritten).symm

/-! ## Clearing along any other way -/

/-- **Where nothing is found and the way does not break off, clearing changes nothing.** -/
theorem writeAt_none_eq_self (hv : v.WellFormed) (hnone : v.descend? p = none)
    (h : ¬v.BreaksOff p) : v.container.writeAt none p = v := by
  induction p generalizing v with
  | nil => cases hnone
  | cons segment rest ih =>
    cases hchild : v.child? segment with
    | some child =>
      rw [descend?, hchild, Option.bind_some] at hnone
      rw [breaksOff_cons_iff_of_some hchild] at h
      have hrest : rest ≠ [] := by
        rintro rfl
        cases hnone
      rw [container_eq_self_of_child? hchild]
      exact writeAt_eq_self hv hchild hrest (ih (hv.child? hchild) hnone h)
    | none =>
      rw [breaksOff_cons_iff_of_none hchild] at h
      cases v with
      | list items => exact writeAt_list_of_child?_eq_none hchild none rest
      | record fields =>
        -- the record that could have had the field
        have hrest : rest = [] := by simpa [isRecord] using h
        subst hrest
        rw [container, writeAt_record, stepInto, List.isEmpty_nil, if_pos rfl,
          Record.put_eq_self (wellFormed_record_iff.1 hv).1 hchild]
      | _ =>
        refine absurd ⟨?_, fun _ ↦ rfl⟩ h
        rintro ⟨items, ⟨⟩⟩

end Value

namespace Record

variable {values : Record} {path : String}

/-! ## Paths that are cleared -/

/-- **A path that covers something**: it is held flat, in front of a value that is found by
descending and is not nothing. -/
def Covers (values : Record) (path : String) : Prop :=
  values.HoldsFlat path ∧
    ((Value.record values).descend? (segments path)).any (fun v ↦ !v.isNull) = true

instance (values : Record) (path : String) : Decidable (values.Covers path) :=
  inferInstanceAs (Decidable ((_ ∧ _) ∧ _))

/-- Behind a path that is no longer held flat, the way is what it was. -/
theorem at?_put_none_of_holdsFlat (h : values.HoldsFlat path) :
    (values.put path none).at? path = (Value.record values).descend? (segments path) := by
  rw [at?, find?_put_self]
  cases hpath : segments path with
  | nil => exact absurd hpath (segments_ne_nil path)
  | cons name rest =>
    have hne : name ≠ path := by
      rintro rfl
      have hplain := isDotted_of_mem_segments (hpath ▸ List.mem_cons_self)
      rw [h.1] at hplain
      cases hplain
    simp only [Value.descend?, Value.child?, find?_put_of_ne hne]

/-- **Nothing is found at a path that has been cleared**, unless it has covered something. -/
theorem at?_write_none_iff (hvalues : values.WellFormed) :
    (values.write path none).at? path = none ∨ (values.write path none).at? path = some .null ↔
      ¬values.Covers path := by
  by_cases hflat : values.HoldsFlat path
  · rw [write_of_holdsFlat hflat, at?_put_none_of_holdsFlat hflat, Covers,
      and_iff_right hflat]
    cases (Value.record values).descend? (segments path) with
    | none => simp
    | some v => cases v <;> simp [Value.isNull]
  · refine iff_of_true ?_ fun hcovers ↦ hflat hcovers.1
    by_cases hstuck : (Value.record values).Stuck (segments path)
    · have hsame : values.write path none = values := by
        rw [write_eq hflat, hstuck.writeAt_eq_self hvalues]
        rfl
      rw [hsame, at?_eq_descend? hflat, hstuck.descend?_eq_none]
      exact .inl rfl
    · rw [at?_write_self hflat hstuck]
      split
      · exact .inr rfl
      · exact .inl rfl

/-- **What clearing leaves where nothing was found**: the values as they were, unless the way breaks
off; then an empty record is written where the last segment was looked for. -/
theorem write_none_of_at?_eq_none (hvalues : values.WellFormed) (hnone : values.at? path = none) :
    (values.write path none = values ↔ ¬(Value.record values).BreaksOff (segments path)) ∧
      ((Value.record values).BreaksOff (segments path) →
        Value.record (values.write path none) =
          (Value.record values).writeAt (some (.record [])) (segments path).dropLast) := by
  have hflat : ¬values.HoldsFlat path := by
    rintro ⟨-, hhas⟩
    obtain ⟨v, hv⟩ := Option.isSome_iff_exists.1 hhas
    rw [at?, hv] at hnone
    cases hnone
  rw [at?_eq_descend? hflat] at hnone
  have hwrite := record_write hflat none
  refine ⟨⟨fun heq hbreaks ↦ ?_, fun hbreaks ↦ ?_⟩, fun hbreaks ↦ ?_⟩
  · rw [heq] at hwrite
    exact hbreaks.writeAt_ne_self none hwrite.symm
  · exact Value.record.inj (hwrite.trans (Value.writeAt_none_eq_self hvalues hnone hbreaks))
  · exact hwrite.trans hbreaks.writeAt_none

/-- **What clearing leaves.**  A path that has been cleared has no value, or is a row with nothing
in it, exactly if it has not covered anything.  Where there was no value before, all values are what
they were exactly if the way there does not break off; otherwise an empty record has been written
where the last segment was looked for. -/
theorem write_none_clears (hvalues : values.WellFormed) (path : String) :
    ((values.write path none).at? path = none ∨
        (values.write path none).at? path = some .null ↔ ¬values.Covers path) ∧
      (values.at? path = none →
        (values.write path none = values ↔
          ¬(Value.record values).BreaksOff (segments path)) ∧
        ((Value.record values).BreaksOff (segments path) →
          Value.record (values.write path none) =
            (Value.record values).writeAt (some (.record [])) (segments path).dropLast)) :=
  ⟨at?_write_none_iff hvalues, write_none_of_at?_eq_none hvalues⟩

/-- A gift: a line, a note that is no record, and a town that is held both in a record and flat. -/
def giftValues : Record :=
  [("lines", .list [.record [("qty", .integer 2)]]), ("note", .text "gift"),
    ("ship", .record [("city", .text "Bergen")]), ("ship.city", .text "Oslo")]

theorem giftValues_wellFormed : giftValues.WellFormed := by decide +kernel

/-- The quantity of a line is taken away; clearing one in a line that is not there changes nothing,
and neither does clearing a field that the record on the way does not have; where the way breaks off
at a text, an empty record is written in its place. -/
theorem giftValues_cleared :
    giftValues.WellFormed ∧
      ((giftValues.write "lines.0.qty" none).at? "lines.0.qty" = none ∨
        (giftValues.write "lines.0.qty" none).at? "lines.0.qty" = some .null) ∧
      giftValues.write "lines.1.qty" none = giftValues ∧
      giftValues.write "ship.zip" none = giftValues ∧
      Value.record (giftValues.write "note.size" none) =
        (Value.record giftValues).writeAt (some (.record [])) ["note"] :=
  ⟨giftValues_wellFormed, (write_none_clears giftValues_wellFormed "lines.0.qty").1.2
      (by decide +kernel),
    ((write_none_clears giftValues_wellFormed "lines.1.qty").2 rfl).1.2 (by decide +kernel),
    ((write_none_clears giftValues_wellFormed "ship.zip").2 rfl).1.2 (by decide +kernel),
    ((write_none_clears giftValues_wellFormed "note.size").2 rfl).2 (by decide +kernel)⟩

/-- **Clearing what is not there destroys a note**, whose way breaks off at its text; and clearing
the town that is held flat leaves the town that it has covered. -/
theorem giftValues_loses_note :
    giftValues.WellFormed ∧ giftValues.at? "note.size" = none ∧
      giftValues.at? "note" = some (.text "gift") ∧
      (giftValues.write "note.size" none).at? "note" = some (.record []) ∧
      (giftValues.write "ship.city" none).at? "ship.city" = some (.text "Bergen") :=
  ⟨giftValues_wellFormed, rfl, rfl, rfl, rfl⟩

end Record

end ReactiveForm
