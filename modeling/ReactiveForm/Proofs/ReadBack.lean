import ReactiveForm.Proofs.Evaluation

/-!
# What a write reads back as

A value that is written is read back at the same path, with one exception: lists do not grow, so
that a way that leads to a list and goes on with a segment that is no row of it is *stuck*
(`Value.Stuck`).  Records that are missing are made on the way, and a value that is neither record
nor list gives way to a record; but only below what is not there yet, where there is no list.  So
whatever is on a way that is stuck was there before, and the write changes nothing
(`Value.Stuck.writeAt_eq_self`).

Clearing differs in the last step alone: a field is taken away, but a row that is cleared stays,
with nothing in it.  A way that ends in a row (`Value.EndsInRow`) therefore reads back as nothing
rather than as no value.

`Record.write_reads_back` says all this of paths into the values of a form.  A path that is held
flat is written and read in place, whatever is behind its segments.
-/

set_option autoImplicit false
namespace ReactiveForm

namespace Value

variable {v child : Value} {fields : Record} {items : List Value} {segment : String}
  {p rest : List String} {x : Option Value}

/-! ## One step -/

theorem child?_list_eq_none_iff : (Value.list items).child? segment = none ↔
    ∀ i, indexOfText? segment = some i → items.length ≤ i := by
  rw [child?]
  cases indexOfText? segment <;> simp

/-- What can be descended into stays what it is when something is written into it. -/
theorem container_eq_self_of_child? (h : v.child? segment = some child) : v.container = v := by
  cases v <;> first | rfl | simp [child?] at h

/-- In a place that is there, a write goes on. -/
theorem child?_writeAt (h : v.child? segment = some child) (hrest : rest ≠ []) :
    (v.writeAt x (segment :: rest)).child? segment = some (child.container.writeAt x rest) := by
  cases v with
  | record fields =>
    rw [child?] at h
    rw [writeAt_record, child?, Record.find?_put_self, stepInto_of_ne_nil hrest, h,
      Option.getD_some]
  | list items =>
    obtain ⟨i, hi, hitem⟩ := Option.bind_eq_some_iff.1 h
    rw [writeAt_list, child?, modifyRow, hi]
    simp [hitem, stepInto_of_ne_nil hrest]
  | _ => simp [child?] at h

/-- In a record a write makes the place that is missing. -/
theorem child?_writeAt_of_find?_eq_none (h : Table.find? fields segment = none)
    (hrest : rest ≠ []) :
    ((Value.record fields).writeAt x (segment :: rest)).child? segment =
      some ((Value.record []).writeAt x rest) := by
  rw [writeAt_record, child?, Record.find?_put_self, stepInto_of_ne_nil hrest, h, Option.getD_none]
  rfl

/-- The last step into a record puts what is written. -/
theorem child?_writeAt_record (fields : Record) (segment : String) (x : Option Value) :
    ((Value.record fields).writeAt x [segment]).child? segment = x := by
  rw [writeAt_record, child?, Record.find?_put_self, stepInto, List.isEmpty_nil, if_pos rfl]

/-- The last step into a list puts what is written into a row, which stays a row. -/
theorem child?_writeAt_list (h : (Value.list items).child? segment = some child)
    (x : Option Value) :
    ((Value.list items).writeAt x [segment]).child? segment = some (x.getD .null) := by
  obtain ⟨i, hi, hitem⟩ := Option.bind_eq_some_iff.1 h
  rw [writeAt_list, child?, modifyRow, hi]
  simp [hitem, stepInto]

/-- A list is not changed behind a segment that is no row of it. -/
theorem writeAt_list_of_child?_eq_none (h : (Value.list items).child? segment = none)
    (x : Option Value) (rest : List String) :
    (Value.list items).writeAt x (segment :: rest) = .list items := by
  rw [child?_list_eq_none_iff] at h
  rw [writeAt_list, modifyRow]
  cases hi : indexOfText? segment with
  | none => rfl
  | some i => exact congrArg Value.list (List.modify_eq_self (h i hi))

/-- A write that leaves a place as it is changes nothing around it. -/
theorem writeAt_eq_self (hv : v.WellFormed) (h : v.child? segment = some child) (hrest : rest ≠ [])
    (hchild : child.container.writeAt x rest = child) : v.writeAt x (segment :: rest) = v := by
  have hstep : stepInto x rest (some child) = some child := by
    rw [stepInto_of_ne_nil hrest, Option.getD_some, hchild]
  cases hv with
  | record hordered hfields =>
    rw [child?] at h
    rw [writeAt_record, h, hstep, Record.put_eq_self hordered h]
  | list hlength hitems =>
    obtain ⟨i, hi, hitem⟩ := Option.bind_eq_some_iff.1 h
    rw [writeAt_list, modifyRow, hi]
    refine congrArg Value.list (List.ext_getElem? fun j ↦ ?_)
    rw [List.getElem?_modify]
    split
    · rename_i hij
      rw [← hij, hitem, Option.map_eq_map, Option.map_some, hstep, Option.getD_some]
    · exact id_map' _
  | _ => simp [child?] at h

/-- What is written into is a list, or else a record: the value itself, or one that holds
nothing. -/
theorem list_or_record (v : Value) : (∃ items, v = .list items) ∨
    ∃ fields, v.container = .record fields ∧
      ∀ segment, v.child? segment = Table.find? fields segment := by
  cases v with
  | list items => exact .inl ⟨items, rfl⟩
  | record fields => exact .inr ⟨fields, rfl, fun _ ↦ rfl⟩
  | _ => exact .inr ⟨[], rfl, fun _ ↦ rfl⟩

/-! ## Ways that are stuck -/

/-- **A way that is stuck**: it leads to a list, and goes on with a segment that is no row of it. -/
inductive Stuck : Value → List String → Prop where
  | here {items : List Value} {segment : String} {rest : List String}
      (hrow : ∀ i, indexOfText? segment = some i → items.length ≤ i) :
      Stuck (.list items) (segment :: rest)
  | step {v child : Value} {segment : String} {rest : List String}
      (hchild : v.child? segment = some child) (h : Stuck child rest) : Stuck v (segment :: rest)

/-- **A way that ends in a row of a list.** -/
inductive EndsInRow : Value → List String → Prop where
  | here {items : List Value} {segment : String} {row : Value}
      (hrow : (Value.list items).child? segment = some row) : EndsInRow (.list items) [segment]
  | step {v child : Value} {segment : String} {rest : List String}
      (hchild : v.child? segment = some child) (h : EndsInRow child rest) :
      EndsInRow v (segment :: rest)

theorem not_stuck_nil (v : Value) : ¬v.Stuck [] := nofun

theorem not_endsInRow_nil (v : Value) : ¬v.EndsInRow [] := nofun

theorem stuck_cons_iff_of_some (h : v.child? segment = some child) :
    v.Stuck (segment :: rest) ↔ child.Stuck rest := by
  refine ⟨fun hstuck ↦ ?_, .step h⟩
  cases hstuck with
  | here hrow =>
    rw [child?_list_eq_none_iff.2 hrow] at h
    cases h
  | step hchild hstuck => exact Option.some.inj (hchild.symm.trans h) ▸ hstuck

theorem stuck_cons_iff_of_none (h : v.child? segment = none) :
    v.Stuck (segment :: rest) ↔ ∃ items, v = .list items := by
  refine ⟨fun hstuck ↦ ?_, ?_⟩
  · cases hstuck with
    | here => exact ⟨_, rfl⟩
    | step hchild =>
      rw [h] at hchild
      cases hchild
  · rintro ⟨items, rfl⟩
    exact .here (child?_list_eq_none_iff.1 h)

theorem endsInRow_cons_iff_of_some (h : v.child? segment = some child) (hrest : rest ≠ []) :
    v.EndsInRow (segment :: rest) ↔ child.EndsInRow rest := by
  refine ⟨fun hends ↦ ?_, .step h⟩
  cases hends with
  | here => exact absurd rfl hrest
  | step hchild hends => exact Option.some.inj (hchild.symm.trans h) ▸ hends

theorem not_endsInRow_of_none (h : v.child? segment = none) : ¬v.EndsInRow (segment :: rest) := by
  rintro (⟨hrow⟩ | ⟨hchild, -⟩)
  · rw [h] at hrow
    cases hrow
  · rw [h] at hchild
    cases hchild

theorem endsInRow_singleton_iff :
    v.EndsInRow [segment] ↔ (∃ items, v = .list items) ∧ (v.child? segment).isSome := by
  constructor
  · rintro (⟨hrow⟩ | ⟨-, hends⟩)
    · exact ⟨⟨_, rfl⟩, by rw [hrow]; rfl⟩
    · exact absurd hends (not_endsInRow_nil _)
  · rintro ⟨⟨items, rfl⟩, hsome⟩
    obtain ⟨row, hrow⟩ := Option.isSome_iff_exists.1 hsome
    exact .here hrow

instance decidableExistsList : (v : Value) → Decidable (∃ items, v = .list items)
  | .list items => isTrue ⟨items, rfl⟩
  | .null | .bool _ | .integer _ | .float _ | .text _ | .record _ => isFalse nofun

instance decidableStuck : (v : Value) → (p : List String) → Decidable (v.Stuck p)
  | v, [] => isFalse (not_stuck_nil v)
  | v, segment :: rest =>
    match h : v.child? segment with
    | some child => @decidable_of_iff' _ _ (stuck_cons_iff_of_some h) (decidableStuck child rest)
    | none => decidable_of_iff' _ (stuck_cons_iff_of_none h)

instance decidableEndsInRow : (v : Value) → (p : List String) → Decidable (v.EndsInRow p)
  | v, [] => isFalse (not_endsInRow_nil v)
  | _, [_] => decidable_of_iff' _ endsInRow_singleton_iff
  | v, segment :: next :: rest =>
    match h : v.child? segment with
    | some child => @decidable_of_iff' _ _ (endsInRow_cons_iff_of_some h (List.cons_ne_nil _ _))
        (decidableEndsInRow child (next :: rest))
    | none => isFalse (not_endsInRow_of_none h)

/-- A way that is stuck leads through something that can be descended into. -/
theorem Stuck.container_eq_self (h : v.Stuck p) : v.container = v := by
  cases h with
  | here => rfl
  | step hchild => exact container_eq_self_of_child? hchild

/-- **A way that is stuck leads nowhere.** -/
theorem Stuck.descend?_eq_none (h : v.Stuck p) : v.descend? p = none := by
  induction h with
  | here hrow => rw [descend?, child?_list_eq_none_iff.2 hrow, Option.bind_none]
  | step hchild _ ih => rw [descend?, hchild, Option.bind_some, ih]

theorem EndsInRow.isSome_descend? (h : v.EndsInRow p) : (v.descend? p).isSome := by
  induction h with
  | here hrow =>
    rw [descend?, hrow]
    rfl
  | step hchild _ ih => rwa [descend?, hchild, Option.bind_some]

/-- **A write along a way that is stuck changes nothing**: all that the way leads through is there
already. -/
theorem Stuck.writeAt_eq_self (h : v.Stuck p) (hv : v.WellFormed) (x : Option Value) :
    v.writeAt x p = v := by
  induction h with
  | here hrow => exact writeAt_list_of_child?_eq_none (child?_list_eq_none_iff.2 hrow) x _
  | @step v child segment rest hchild h ih =>
    have hrest : rest ≠ [] := fun hnil ↦ not_stuck_nil child (hnil ▸ h)
    refine Value.writeAt_eq_self hv hchild hrest ?_
    rw [h.container_eq_self, ih (hv.child? hchild)]

/-- In a record that holds nothing no way is stuck, and none ends in a row. -/
theorem not_stuck_empty (p : List String) : ¬(Value.record []).Stuck p := by
  cases p with
  | nil => exact not_stuck_nil _
  | cons segment rest =>
    rw [stuck_cons_iff_of_none rfl]
    rintro ⟨items, ⟨⟩⟩

theorem not_endsInRow_empty (p : List String) : ¬(Value.record []).EndsInRow p := by
  cases p with
  | nil => exact not_endsInRow_nil _
  | cons segment rest => exact not_endsInRow_of_none rfl

/-- Nor is a single step from a record stuck, and it does not end in a row. -/
theorem not_stuck_singleton (fields : Record) (segment : String) :
    ¬(Value.record fields).Stuck [segment] := by
  rintro (_ | ⟨-, hstuck⟩)
  exact not_stuck_nil _ hstuck

theorem not_endsInRow_singleton (fields : Record) (segment : String) :
    ¬(Value.record fields).EndsInRow [segment] := by
  rw [endsInRow_singleton_iff]
  rintro ⟨⟨items, ⟨⟩⟩, -⟩

/-! ## Reading at the place of a write -/

/-- What is found behind the last step of a write. -/
theorem child?_writeAt_last (h : ¬v.Stuck [segment]) (x : Option Value) :
    (v.container.writeAt x [segment]).child? segment =
      if v.EndsInRow [segment] then some (x.getD .null) else x := by
  simp only [endsInRow_singleton_iff]
  obtain ⟨items, rfl⟩ | ⟨fields, hcontainer, hchild⟩ := list_or_record v
  · cases hrow : (Value.list items).child? segment with
    | none => exact absurd ((stuck_cons_iff_of_none hrow).2 ⟨items, rfl⟩) h
    | some row => rw [container, child?_writeAt_list hrow, if_pos ⟨⟨items, rfl⟩, rfl⟩]
  · have hlist : ¬∃ items, v = .list items := by
      rintro ⟨items, rfl⟩
      cases hcontainer
    rw [hcontainer, child?_writeAt_record, if_neg fun hrow ↦ hlist hrow.1]

/-- **What is read where something has been written**: that, unless it has been taken away from a
row of a list, in which there is nothing then. -/
theorem descend?_writeAt_self (hp : p ≠ []) (h : ¬v.Stuck p) (x : Option Value) :
    (v.container.writeAt x p).descend? p = if v.EndsInRow p then some (x.getD .null) else x := by
  induction p generalizing v with
  | nil => exact absurd rfl hp
  | cons segment rest ih =>
    rw [descend?]
    by_cases hrest : rest = []
    · subst hrest
      rw [child?_writeAt_last h]
      exact Option.bind_fun_some _
    cases hchild : v.child? segment with
    | some child =>
      rw [stuck_cons_iff_of_some hchild] at h
      rw [container_eq_self_of_child? hchild, child?_writeAt hchild hrest, Option.bind_some,
        ih hrest h]
      simp only [endsInRow_cons_iff_of_some hchild hrest]
    | none =>
      -- from here on the way is made
      rw [stuck_cons_iff_of_none hchild] at h
      obtain ⟨fields, hcontainer, hfields⟩ := (list_or_record v).resolve_left h
      rw [hcontainer, child?_writeAt_of_find?_eq_none (hfields segment ▸ hchild) hrest,
        Option.bind_some, if_neg (not_endsInRow_of_none hchild)]
      exact (ih hrest (not_stuck_empty rest)).trans (if_neg (not_endsInRow_empty rest))

/-- What has been written further down does not change where the way there leads. -/
theorem descend?_writeAt_append {q : List String} {w : Value} (h : v.descend? p = some w)
    (hq : q ≠ []) (x : Option Value) :
    (v.container.writeAt x (p ++ q)).descend? p = some (w.container.writeAt x q) := by
  induction p generalizing v with
  | nil =>
    obtain rfl := Option.some.inj h
    rfl
  | cons segment rest ih =>
    obtain ⟨child, hchild, hrest⟩ := Option.bind_eq_some_iff.1 h
    rw [container_eq_self_of_child? hchild, List.cons_append, descend?,
      child?_writeAt hchild (List.append_ne_nil_of_right_ne_nil rest hq), Option.bind_some,
      ih hrest]

end Value

/-! ## Reading at the path of a write -/

namespace Record

variable {values : Record} {path : String} {x : Option Value}

/-- **A path that is blocked**: it has points, is not held flat, and leads to a list at a segment
that is no row of it. -/
def Blocks (values : Record) (path : String) : Prop :=
  isDotted path = true ∧ Table.has values path = false ∧
    (Value.record values).Stuck (segments path)

instance (values : Record) (path : String) : Decidable (values.Blocks path) :=
  inferInstanceAs (Decidable (_ ∧ _ ∧ _))

theorem at?_eq_descend? (h : ¬values.HoldsFlat path) :
    values.at? path = (Value.record values).descend? (segments path) := by
  cases hdot : isDotted path with
  | false =>
    rw [at?_of_not_isDotted hdot, segments_of_not_isDotted hdot]
    exact (Option.bind_fun_some _).symm
  | true =>
    have hnone : Table.find? values path = none := by simpa [HoldsFlat, hdot, Table.has] using h
    rw [at?, hnone]

theorem not_holdsFlat_write_self (h : ¬values.HoldsFlat path) (x : Option Value) :
    ¬(values.write path x).HoldsFlat path := by
  rintro ⟨hdot, hhas⟩
  obtain ⟨name, rest, -, hname, heq⟩ := exists_write_eq_put h x
  have hne : path ≠ name := by
    rintro rfl
    rw [hdot] at hname
    cases hname
  rw [heq, Table.has, find?_put_of_ne hne] at hhas
  exact h ⟨hdot, hhas⟩

/-- A blocked path is one that is stuck, unless it is held flat. -/
theorem blocks_iff :
    values.Blocks path ↔ ¬values.HoldsFlat path ∧ (Value.record values).Stuck (segments path) := by
  refine ⟨fun ⟨_, hhas, hstuck⟩ ↦ ⟨fun hflat ↦ ?_, hstuck⟩, fun ⟨hflat, hstuck⟩ ↦ ?_⟩
  · rw [hflat.2] at hhas
    cases hhas
  · cases hdot : isDotted path with
    | false =>
      rw [segments_of_not_isDotted hdot] at hstuck
      exact absurd hstuck (Value.not_stuck_singleton values path)
    | true => exact ⟨hdot, by simpa [HoldsFlat, hdot] using hflat, hstuck⟩

/-- What is put under a whole name is read there. -/
theorem at?_put_some (values : Record) (path : String) (v : Value) :
    (values.put path (some v)).at? path = some v := by
  rw [at?, find?_put_self]

/-- **What is read at the path of a write**, if it is not held flat and not stuck. -/
theorem at?_write_self (hflat : ¬values.HoldsFlat path)
    (hstuck : ¬(Value.record values).Stuck (segments path)) (x : Option Value) :
    (values.write path x).at? path =
      if (Value.record values).EndsInRow (segments path) then some (x.getD .null) else x := by
  rw [at?_eq_descend? (not_holdsFlat_write_self hflat x), record_write hflat]
  exact Value.descend?_writeAt_self (segments_ne_nil path) hstuck x

/-- **Values that take a write at a path**: a value is not stuck on its way, and it is not a row of
a list that is to be cleared. -/
structure Takes (values : Record) (path : String) (x : Option Value) : Prop where
  not_stuck : x ≠ none → ¬(Value.record values).Stuck (segments path)
  not_row : x = none → ¬(Value.record values).EndsInRow (segments path)

instance (values : Record) (path : String) (x : Option Value) : Decidable (values.Takes path x) :=
  decidable_of_iff ((x.isSome → ¬(Value.record values).Stuck (segments path)) ∧
      (x.isNone → ¬(Value.record values).EndsInRow (segments path)))
    ⟨fun ⟨hstuck, hrow⟩ ↦ ⟨fun hx ↦ hstuck (Option.isSome_iff_ne_none.2 hx),
        fun hx ↦ hrow (Option.isNone_iff_eq_none.2 hx)⟩,
      fun h ↦ ⟨fun hx ↦ h.not_stuck (Option.isSome_iff_ne_none.1 hx),
        fun hx ↦ h.not_row (Option.isNone_iff_eq_none.1 hx)⟩⟩

/-- A plain name takes every write. -/
theorem takes_of_not_isDotted (h : isDotted path = false) (values : Record) (x : Option Value) :
    values.Takes path x := by
  constructor
  · exact fun _ ↦ segments_of_not_isDotted h ▸ Value.not_stuck_singleton values path
  · exact fun _ ↦ segments_of_not_isDotted h ▸ Value.not_endsInRow_singleton values path

/-- What is there already is taken. -/
theorem takes_of_at?_eq (hflat : ¬values.HoldsFlat path) (h : values.at? path = x) :
    values.Takes path x := by
  rw [at?_eq_descend? hflat] at h
  refine ⟨fun hx hstuck ↦ hx (h.symm.trans hstuck.descend?_eq_none), fun hx hrow ↦ ?_⟩
  have hsome := hrow.isSome_descend?
  rw [h, hx] at hsome
  cases hsome

/-- **A write to a path that is not held flat is read back exactly if it is taken.** -/
theorem at?_write_self_iff (hvalues : values.WellFormed) (hflat : ¬values.HoldsFlat path) :
    (values.write path x).at? path = x ↔ values.Takes path x := by
  by_cases hstuck : (Value.record values).Stuck (segments path)
  · have hsame : values.write path x = values := by
      rw [write_eq hflat, hstuck.writeAt_eq_self hvalues]
      rfl
    rw [hsame]
    refine ⟨takes_of_at?_eq hflat, fun htakes ↦ ?_⟩
    rw [at?_eq_descend? hflat, hstuck.descend?_eq_none]
    exact Classical.byContradiction fun hx ↦ htakes.not_stuck (Ne.symm hx) hstuck
  · rw [at?_write_self hflat hstuck]
    cases x with
    | some v =>
      rw [Option.getD_some, ite_self]
      exact iff_of_true rfl ⟨fun _ ↦ hstuck, nofun⟩
    | none =>
      split
      · rename_i hrow
        exact ⟨nofun, fun htakes ↦ absurd hrow (htakes.not_row rfl)⟩
      · rename_i hrow
        exact ⟨fun _ ↦ ⟨fun hx ↦ absurd rfl hx, fun _ ↦ hrow⟩, fun _ ↦ rfl⟩

/-- **A write is read back or changes nothing.**  What has been written is read at its path, unless
the path is blocked; then the values are as they were, and hold nothing there. -/
theorem write_reads_back (hvalues : values.WellFormed) (path : String) (v : Value) :
    (¬values.Blocks path → (values.write path (some v)).at? path = some v) ∧
      (values.Blocks path →
        values.write path (some v) = values ∧ values.at? path = none) := by
  refine ⟨fun hblocks ↦ ?_, fun hblocks ↦ ?_⟩
  · by_cases hflat : values.HoldsFlat path
    · rw [write_of_holdsFlat hflat, at?_put_some]
    · rw [at?_write_self hflat fun hstuck ↦ hblocks (blocks_iff.2 ⟨hflat, hstuck⟩),
        Option.getD_some, ite_self]
  · obtain ⟨hflat, hstuck⟩ := blocks_iff.1 hblocks
    refine ⟨?_, (at?_eq_descend? hflat).trans hstuck.descend?_eq_none⟩
    rw [write_eq hflat, hstuck.writeAt_eq_self hvalues]
    rfl

/-- A cart: a note, which is no record, and one line. -/
def cartValues : Record :=
  [("lines", .list [.record [("qty", .integer 2)]]), ("note", .text "gift")]

/-- The quantity in a line of a cart is read back, and so is a text inside the note; a second line
is not there to be written, nor is anything inside one. -/
theorem cartValues_reads_back :
    (cartValues.write "lines.0.qty" (some (.integer 3))).at? "lines.0.qty" = some (.integer 3) ∧
      (cartValues.write "note.text" (some (.text "hi"))).at? "note.text" = some (.text "hi") ∧
      cartValues.write "lines.1.qty" (some (.integer 3)) = cartValues ∧
      cartValues.write "lines.last" (some .null) = cartValues := by
  have hline : (Value.record [("qty", .integer 2)]).WellFormed :=
    .record (by decide) (by simp [Value.WellFormed.integer])
  have hlines : (Value.list [.record [("qty", .integer 2)]]).WellFormed :=
    .list (by decide) (by simpa using hline)
  have hvalues : cartValues.WellFormed :=
    .record (by decide) (by simp [cartValues, hlines, Value.WellFormed.text])
  exact ⟨(write_reads_back hvalues "lines.0.qty" _).1 (by decide +kernel),
    (write_reads_back hvalues "note.text" _).1 (by decide +kernel),
    ((write_reads_back hvalues "lines.1.qty" _).2 (by decide +kernel)).1,
    ((write_reads_back hvalues "lines.last" _).2 (by decide +kernel)).1⟩

end Record

end ReactiveForm
