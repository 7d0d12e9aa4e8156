import ReactiveForm.Form.Write
import ReactiveForm.Proofs.Path

/-!
# Laws of writing

When the order of two writes does not matter, and when the later one makes the earlier one
superfluous.

* `Value.writeAt_comm` — writes along *diverging* segments commute.  Segments diverge where they
  have different names that are not the same row number either: `0` and `00` are two names of a
  record, but one row of a list.
* `Value.writeAt_absorb` — a write absorbs an earlier one at its own place or inside it.
* `Value.descend?_writeAt` — a write is not seen along diverging segments.

The first two speak of whole values, so they need the names of all records on the way to be in
order.  That is what a host's values are like, and `Value.WellFormed` says it: every record is in
order, and every list has a length that fits a machine word.  Writing keeps it
(`WellFormed.writeAt`).

At the top, `Record.Apart` and `Record.Inside` compare paths in the same way.  Writing to a path
that is not held flat (`Record.HoldsFlat`) is nothing but writing along segments
(`Record.write_eq`), and a path that is held flat gets in the way of no other one.
-/

set_option autoImplicit false
namespace ReactiveForm

/-! ## Putting

At one level a write puts something under a name, or takes away what is there. -/

namespace Record

open Table

variable {values : Record} {name other : String} {x y : Option Value}

/-- What is put under a name is found there, and nothing else changes. -/
theorem find?_put (values : Record) (name : String) (x : Option Value) (other : String) :
    find? (values.put name x) other = if other = name then x else find? values other := by
  cases x with
  | none => exact find?_erase values name other
  | some v => exact find?_insert values name v other

@[simp] theorem find?_put_self (values : Record) (name : String) (x : Option Value) :
    find? (values.put name x) name = x := by
  rw [find?_put, if_pos rfl]

theorem find?_put_of_ne (h : other ≠ name) :
    find? (values.put name x) other = find? values other := by
  rw [find?_put, if_neg h]

/-- An entry of a record with something put in is that or was there before. -/
theorem mem_put {e : String × Value} (h : e ∈ values.put name x) :
    x = some e.2 ∨ e ∈ values := by
  cases x with
  | none => exact .inr (mem_erase h)
  | some v => exact (mem_insert h).imp_left fun he ↦ by rw [he]

end Record

theorem Table.Ordered.put {values : Record} (h : Table.Ordered values) (name : String)
    (x : Option Value) : Table.Ordered (values.put name x) := by
  cases x with
  | none => exact h.erase name
  | some v => exact h.insert name v

namespace Record

open Table

variable {values : Record} {name other : String} {x y : Option Value}

/-- Putting under different names commutes. -/
theorem put_comm (h : Ordered values) (hne : name ≠ other) :
    (values.put name x).put other y = (values.put other y).put name x := by
  refine ((h.put _ _).put _ _).ext ((h.put _ _).put _ _) fun n ↦ ?_
  simp only [find?_put]
  by_cases hn : n = name
  · rw [if_neg (hn ▸ hne), if_pos hn, if_pos hn]
  · rw [if_neg hn, if_neg hn]

/-- The later of two values put under a name counts. -/
theorem put_put (h : Ordered values) : (values.put name x).put name y = values.put name y := by
  refine ((h.put _ _).put _ _).ext (h.put _ _) fun n ↦ ?_
  simp only [find?_put]
  split <;> rfl

/-- Putting what is there changes nothing. -/
theorem put_eq_self (h : Ordered values) (hx : find? values name = x) :
    values.put name x = values := by
  refine (h.put name x).ext h fun n ↦ ?_
  rw [find?_put]
  split
  · rename_i hn
    rw [hn, hx]
  · rfl

end Record

/-! ## Values of a host

A record keeps its names in order, so it is known by what is found under them; this is why two
records that came about by different writes can be the same. -/

namespace Value

/-- **A value as a host holds it**: the names of its records are in order, and its lists have
lengths that fit a machine word. -/
inductive WellFormed : Value → Prop where
  | null : WellFormed .null
  | bool (flag : Bool) : WellFormed (.bool flag)
  | integer (n : Int) : WellFormed (.integer n)
  | float (x : Finite64) : WellFormed (.float x)
  | text (s : String) : WellFormed (.text s)
  | list {items : List Value} (hlength : items.length < UInt64.size)
      (hitems : ∀ v ∈ items, WellFormed v) : WellFormed (.list items)
  | record {fields : Record} (hordered : Table.Ordered fields)
      (hfields : ∀ e ∈ fields, WellFormed e.2) : WellFormed (.record fields)

/-- A list is as a host could hold it if its items are and can be numbered. -/
theorem wellFormed_list_iff {items : List Value} :
    (Value.list items).WellFormed ↔
      items.length < UInt64.size ∧ ∀ v ∈ items, v.WellFormed :=
  ⟨fun | .list hlength hitems => ⟨hlength, hitems⟩, fun h ↦ .list h.1 h.2⟩

/-- A record is as a host could hold it if its names are in order and its values are. -/
theorem wellFormed_record_iff {fields : Record} :
    (Value.record fields).WellFormed ↔
      Table.Ordered fields ∧ ∀ e ∈ fields, e.2.WellFormed :=
  ⟨fun | .record hordered hfields => ⟨hordered, hfields⟩, fun h ↦ .record h.1 h.2⟩

theorem wellFormed_empty : (Value.record []).WellFormed := .record Table.ordered_nil (by simp)

mutual

/-- Whether a value is as a host holds it. -/
def isWellFormed : Value → Bool
  | .list items => decide (items.length < UInt64.size) && itemsWellFormed items
  | .record fields => decide (Table.Ordered fields) && fieldsWellFormed fields
  | _ => true

/-- Whether all values of a list are as a host holds them. -/
def itemsWellFormed : List Value → Bool
  | [] => true
  | v :: items => v.isWellFormed && itemsWellFormed items

/-- Whether the values of all fields are as a host holds them. -/
def fieldsWellFormed : List (String × Value) → Bool
  | [] => true
  | (_, v) :: fields => v.isWellFormed && fieldsWellFormed fields

end

mutual

/-- The check by recursion agrees with the predicate, for values and for their parts. -/
theorem isWellFormed_iff : (v : Value) → (v.isWellFormed = true ↔ v.WellFormed)
  | .list items => by
    rw [isWellFormed, Bool.and_eq_true, decide_eq_true_iff, itemsWellFormed_iff items,
      wellFormed_list_iff]
  | .record fields => by
    rw [isWellFormed, Bool.and_eq_true, decide_eq_true_iff, fieldsWellFormed_iff fields,
      wellFormed_record_iff]
  | .null => iff_of_true rfl .null
  | .bool flag => iff_of_true rfl (.bool flag)
  | .integer n => iff_of_true rfl (.integer n)
  | .float x => iff_of_true rfl (.float x)
  | .text s => iff_of_true rfl (.text s)

theorem itemsWellFormed_iff : (items : List Value) →
    (itemsWellFormed items = true ↔ ∀ v ∈ items, v.WellFormed)
  | [] => iff_of_true rfl (List.forall_mem_nil _)
  | v :: items => by
    rw [itemsWellFormed, Bool.and_eq_true, isWellFormed_iff v, itemsWellFormed_iff items,
      List.forall_mem_cons]

theorem fieldsWellFormed_iff : (fields : List (String × Value)) →
    (fieldsWellFormed fields = true ↔ ∀ e ∈ fields, e.2.WellFormed)
  | [] => iff_of_true rfl (List.forall_mem_nil _)
  | (_, v) :: fields => by
    rw [fieldsWellFormed, Bool.and_eq_true, isWellFormed_iff v, fieldsWellFormed_iff fields,
      List.forall_mem_cons]

end

instance (v : Value) : Decidable v.WellFormed := decidable_of_iff _ (isWellFormed_iff v)

theorem WellFormed.container {v : Value} (h : v.WellFormed) : v.container.WellFormed := by
  cases h with
  | list hlength hitems => exact .list hlength hitems
  | record hordered hfields => exact .record hordered hfields
  | _ => exact wellFormed_empty

theorem WellFormed.find? {fields : Record} (h : (Value.record fields).WellFormed) {name : String}
    {v : Value} (hv : Table.find? fields name = some v) : v.WellFormed :=
  (wellFormed_record_iff.1 h).2 _ (Table.mem_of_find? hv)

/-! ## One step of a write

A write goes along its segments, through records by name and through lists by row number.  One
equation for each kind of value is all that the laws below know of it. -/

/-- What a write leaves in a place it comes through: at the end of its way what is written, and
before that the container there, written into. -/
def stepInto (written : Option Value) (rest : List String) (child : Option Value) : Option Value :=
  if rest.isEmpty then written
  else some ((child.getD (.record [])).container.writeAt written rest)

/-- Changes the row of a list that a segment names. -/
def modifyRow (segment : String) (f : Value → Value) (items : List Value) : List Value :=
  match indexOfText? segment with
  | some i => items.modify i f
  | none => items

variable {x y : Option Value} {segment : String} {rest : List String}

theorem stepInto_nil (x c : Option Value) : stepInto x [] c = x := rfl

theorem stepInto_of_ne_nil (h : rest ≠ []) (x c : Option Value) :
    stepInto x rest c = some ((c.getD (.record [])).container.writeAt x rest) := by
  rw [stepInto, if_neg (by simpa using h)]

theorem modifyRow_of_none (h : indexOfText? segment = none) (f : Value → Value)
    (items : List Value) : modifyRow segment f items = items := by
  rw [modifyRow, h]

theorem modifyRow_of_some {i : Nat} (h : indexOfText? segment = some i) (f : Value → Value)
    (items : List Value) : modifyRow segment f items = items.modify i f := by
  rw [modifyRow, h]

/-- In a record, a write steps into the field with the name of the segment. -/
theorem writeAt_record (x : Option Value) (segment : String) (rest : List String)
    (fields : Record) :
    (Value.record fields).writeAt x (segment :: rest) =
      .record (fields.put segment (stepInto x rest (Table.find? fields segment))) := by
  cases rest <;> rfl

/-- In a list, a write steps into the row with the number that the segment is, if there is one. -/
theorem writeAt_list (x : Option Value) (segment : String) (rest : List String)
    (items : List Value) :
    (Value.list items).writeAt x (segment :: rest) =
      .list (modifyRow segment (fun item ↦ (stepInto x rest (some item)).getD .null) items) := by
  rw [writeAt, modifyRow]
  cases indexOfText? segment with
  | none => rfl
  | some i =>
    cases hitem : items[i]? with
    | none => simp only [hitem, List.modify_eq_self (List.getElem?_eq_none_iff.1 hitem)]
    | some item =>
      simp only [hitem, List.modify_eq_set, Option.getD_some, stepInto]
      by_cases h : rest.isEmpty <;> simp [h]

/-- A write leaves what is neither record nor list alone. -/
theorem writeAt_atom {v : Value} (x : Option Value) (path : List String)
    (hrecord : ∀ fields, v ≠ .record fields) (hlist : ∀ items, v ≠ .list items) :
    v.writeAt x path = v := by
  cases path with
  | nil => rfl
  | cons segment rest =>
    cases v with
    | record fields => exact absurd rfl (hrecord fields)
    | list items => exact absurd rfl (hlist items)
    | _ => cases rest <;> rfl

/-- What is written into stays a container. -/
theorem container_writeAt (v : Value) (x : Option Value) (path : List String) :
    (v.container.writeAt x path).container = v.container.writeAt x path := by
  cases path with
  | nil => cases v <;> rfl
  | cons segment rest =>
    have hrecord : ∀ fields : Record,
        ((Value.record fields).writeAt x (segment :: rest)).container =
          (Value.record fields).writeAt x (segment :: rest) := by
      intro fields
      rw [writeAt_record]
      rfl
    cases v with
    | list items =>
      change ((list items).writeAt x (segment :: rest)).container =
        (list items).writeAt x (segment :: rest)
      rw [writeAt_list]
      rfl
    | record fields => exact hrecord fields
    | _ => exact hrecord []

theorem fields_writeAt (fields : Record) (x : Option Value) (path : List String) :
    (Value.record fields).writeAt x path =
      .record ((Value.record fields).writeAt x path).fields := by
  cases path with
  | nil => rfl
  | cons segment rest => rw [writeAt_record]; rfl

/-! ## Rows

A row is changed where it is; none is added and none is lost. -/

theorem modify_congr {items : List Value} {i : Nat} {f g : Value → Value}
    (h : ∀ item, items[i]? = some item → f item = g item) :
    items.modify i f = items.modify i g := by
  refine List.ext_getElem? fun j ↦ ?_
  rw [List.getElem?_modify, List.getElem?_modify]
  by_cases hij : i = j
  · subst hij
    cases hitem : items[i]? with
    | none => rfl
    | some item => simp [h item hitem]
  · simp [hij]

/-- An item is one that was there, or is what the row has been changed to. -/
theorem mem_modifyRow {items : List Value} {f : Value → Value} {v : Value}
    (h : v ∈ modifyRow segment f items) : v ∈ items ∨ ∃ item ∈ items, v = f item := by
  cases hrow : indexOfText? segment with
  | none => exact .inl (modifyRow_of_none hrow f items ▸ h)
  | some i =>
    rw [modifyRow_of_some hrow] at h
    obtain ⟨j, hj⟩ := List.mem_iff_getElem?.1 h
    rw [List.getElem?_modify] at hj
    cases hitem : items[j]? with
    | none => simp [hitem] at hj
    | some item =>
      have hmem := List.mem_of_getElem? hitem
      simp only [hitem, Option.map_eq_map, Option.map_some, Option.some.injEq] at hj
      split at hj
      · exact .inr ⟨item, hmem, hj.symm⟩
      · exact .inl (by rwa [← hj])

@[simp] theorem length_modifyRow (segment : String) (f : Value → Value) (items : List Value) :
    (modifyRow segment f items).length = items.length := by
  cases h : indexOfText? segment with
  | none => rw [modifyRow_of_none h]
  | some i => rw [modifyRow_of_some h, List.length_modify]

theorem WellFormed.container_getD {c : Option Value} (hc : ∀ w, c = some w → w.WellFormed) :
    (c.getD (.record [])).container.WellFormed := by
  cases c with
  | none => exact wellFormed_empty
  | some w => exact (hc w rfl).container

/-- A step keeps values as a host holds them, if the rest of the way does. -/
theorem WellFormed.stepInto {x c : Option Value} {rest : List String}
    (hx : ∀ w, x = some w → w.WellFormed)
    (h : ∀ v : Value, v.WellFormed → (v.writeAt x rest).WellFormed)
    (hc : ∀ w, c = some w → w.WellFormed) :
    ∀ w, Value.stepInto x rest c = some w → w.WellFormed := by
  intro w hw
  by_cases hrest : rest = []
  · rw [hrest, stepInto_nil] at hw
    exact hx w hw
  · rw [stepInto_of_ne_nil hrest] at hw
    exact Option.some.inj hw ▸ h _ (container_getD hc)

/-- **Writing keeps values as a host holds them.** -/
theorem WellFormed.writeAt {x : Option Value} (hx : ∀ w, x = some w → w.WellFormed)
    {path : List String} {v : Value} (hv : v.WellFormed) : (v.writeAt x path).WellFormed := by
  induction path generalizing v with
  | nil => exact hv
  | cons segment rest ih =>
    cases hv with
    | record hordered hfields =>
      rw [writeAt_record]
      refine .record (hordered.put _ _) fun e he ↦ ?_
      rcases Record.mem_put he with he | he
      · exact WellFormed.stepInto hx (fun _ ↦ ih)
          (fun w hw ↦ WellFormed.find? (.record hordered hfields) hw) _ he
      · exact hfields e he
    | list hlength hitems =>
      rw [writeAt_list]
      refine .list (by rwa [length_modifyRow]) fun v hv ↦ ?_
      rcases mem_modifyRow hv with hv | ⟨item, hitem, rfl⟩
      · exact hitems v hv
      · cases hs : Value.stepInto x rest (some item) with
        | none => exact .null
        | some w =>
          exact WellFormed.stepInto hx (fun _ ↦ ih)
            (fun u hu ↦ Option.some.inj hu ▸ hitems item hitem) w hs
    | _ => rw [writeAt_atom _ _ (by simp) (by simp)]; constructor

/-! ## Writes that commute -/

/-- Two segments that name one row of a list. -/
def SameRow (a b : String) : Prop := ∃ i, indexOfText? a = some i ∧ indexOfText? b = some i

/-- **Segments that diverge**: somewhere before the end of both they have different names, which
are not the same row number either. -/
def Diverging : List String → List String → Prop
  | a :: p, b :: q => (a ≠ b ∧ ¬SameRow a b) ∨ Diverging p q
  | _, _ => False

theorem Diverging.ne_nil {p q : List String} (h : Diverging p q) : p ≠ [] ∧ q ≠ [] := by
  cases p with
  | nil => cases q <;> exact h.elim
  | cons a p =>
    cases q with
    | nil => exact h.elim
    | cons b q => exact ⟨List.cons_ne_nil a p, List.cons_ne_nil b q⟩

theorem Diverging.cons {p q : List String} (h : Diverging p q) (a b : String) :
    Diverging (a :: p) (b :: q) := Or.inr h

/-- What diverges begins with two names, behind which it may go on diverging. -/
@[elab_as_elim]
theorem Diverging.rec_cons {motive : ∀ p q : List String, Diverging p q → Prop}
    (cons : ∀ (a b : String) (p q : List String) (h : Diverging (a :: p) (b :: q)),
      (∀ hpq : Diverging p q, motive p q hpq) → motive (a :: p) (b :: q) h)
    {p q : List String} (h : Diverging p q) : motive p q h := by
  induction p generalizing q with
  | nil => exact absurd rfl h.ne_nil.1
  | cons a p ih =>
    cases q with
    | nil => exact absurd rfl h.ne_nil.2
    | cons b q => exact cons a b p q h ih

theorem Diverging.symm {p q : List String} (h : Diverging p q) : Diverging q p := by
  induction h using Diverging.rec_cons with
  | cons a b p q h ih =>
    exact h.imp (fun ⟨hne, hrow⟩ ↦ ⟨Ne.symm hne, fun ⟨i, hb, ha⟩ ↦ hrow ⟨i, ha, hb⟩⟩) ih

/-- What diverges from segments diverges from what goes on behind them. -/
theorem Diverging.append {p q : List String} (h : Diverging p q) (rest : List String) :
    Diverging p (q ++ rest) := by
  induction h using Diverging.rec_cons with
  | cons a b p q h ih => exact h.imp_right ih

theorem Diverging.irrefl (p : List String) : ¬Diverging p p := by
  induction p with
  | nil => exact fun h ↦ h.ne_nil.1 rfl
  | cons a p ih => exact fun h ↦ h.elim (fun h ↦ h.1 rfl) ih

theorem modifyRow_modifyRow {a b : String} (h : SameRow a b) (f g : Value → Value)
    (items : List Value) :
    modifyRow b g (modifyRow a f items) = modifyRow a (g ∘ f) items := by
  obtain ⟨i, ha, hb⟩ := h
  rw [modifyRow_of_some ha, modifyRow_of_some ha, modifyRow_of_some hb]
  exact List.modify_modify_eq ..

/-- Changes of different rows commute, for whatever changes they are. -/
theorem modifyRow_comm {a b : String} (h : ¬SameRow a b) (f g : Value → Value)
    (items : List Value) :
    modifyRow b g (modifyRow a f items) = modifyRow a f (modifyRow b g items) := by
  cases ha : indexOfText? a with
  | none => rw [modifyRow_of_none ha, modifyRow_of_none ha]
  | some i =>
    cases hb : indexOfText? b with
    | none => rw [modifyRow_of_none hb, modifyRow_of_none hb]
    | some j =>
      simp only [modifyRow_of_some ha, modifyRow_of_some hb]
      exact List.modify_modify_ne _ _ _ fun hij ↦ h ⟨i, ha, hij ▸ hb⟩

theorem modifyRow_congr {items : List Value} {f g : Value → Value}
    (h : ∀ item ∈ items, f item = g item) :
    modifyRow segment f items = modifyRow segment g items := by
  cases hrow : indexOfText? segment with
  | none => rw [modifyRow_of_none hrow, modifyRow_of_none hrow]
  | some i =>
    rw [modifyRow_of_some hrow, modifyRow_of_some hrow]
    exact modify_congr fun item hitem ↦ h item (List.mem_of_getElem? hitem)

/-- Steps into one place commute, if the rests of the ways do. -/
theorem stepInto_comm {p q : List String} (hp : p ≠ []) (hq : q ≠ [])
    (h : ∀ v : Value, v.WellFormed → (v.writeAt x p).writeAt y q = (v.writeAt y q).writeAt x p)
    {c : Option Value} (hc : ∀ v, c = some v → v.WellFormed) :
    stepInto y q (stepInto x p c) = stepInto x p (stepInto y q c) := by
  simp only [stepInto_of_ne_nil hp, stepInto_of_ne_nil hq, Option.getD_some, container_writeAt]
  rw [h _ (WellFormed.container_getD hc)]

/-- **Writes along diverging segments commute.** -/
theorem writeAt_comm {p q : List String} (h : Diverging p q) {v : Value} (hv : v.WellFormed)
    (x y : Option Value) : (v.writeAt x p).writeAt y q = (v.writeAt y q).writeAt x p := by
  induction h using Diverging.rec_cons generalizing v with
  | cons a b p q h ih =>
    cases hv with
    | record hordered hfields =>
      rename_i fields
      simp only [writeAt_record]
      by_cases hab : a = b
      · -- one field, in which the rests diverge
        subst hab
        have hpq : Diverging p q := h.resolve_left fun h ↦ h.1 rfl
        rw [Record.find?_put_self, Record.find?_put_self, Record.put_put hordered,
          Record.put_put hordered, stepInto_comm hpq.ne_nil.1 hpq.ne_nil.2
            (fun v hv ↦ ih hpq hv) fun v hv ↦ WellFormed.find? (.record hordered hfields) hv]
      · rw [Record.find?_put_of_ne (Ne.symm hab), Record.find?_put_of_ne hab,
          Record.put_comm hordered hab]
    | list hlength hitems =>
      simp only [writeAt_list]
      by_cases hrow : SameRow a b
      · -- one row, in which the rests diverge
        have hpq : Diverging p q := h.resolve_left fun h ↦ h.2 hrow
        obtain ⟨i, ha, hb⟩ := hrow
        rw [modifyRow_modifyRow ⟨i, ha, hb⟩, modifyRow_modifyRow ⟨i, hb, ha⟩]
        have hseg : ∀ f items, modifyRow a f items = modifyRow b f items := by
          intro f items
          rw [modifyRow_of_some ha, modifyRow_of_some hb]
        rw [hseg, modifyRow_congr fun item hitem ↦ ?_]
        have hcomm := stepInto_comm (x := x) (y := y) (c := some item) hpq.ne_nil.1
          hpq.ne_nil.2 (fun v hv ↦ ih hpq hv) fun v hv ↦ Option.some.inj hv ▸ hitems item hitem
        simp only [stepInto_of_ne_nil hpq.ne_nil.1, stepInto_of_ne_nil hpq.ne_nil.2,
          Function.comp_apply, Option.getD_some] at hcomm ⊢
        exact Option.some.inj hcomm
      · rw [modifyRow_comm hrow]
    | _ => simp [writeAt_atom]

/-! ## Writes that absorb -/

/-- A step absorbs an earlier one into the same place, if the rest of the way does. -/
theorem stepInto_absorb {p rest : List String}
    (h : p ≠ [] → ∀ v : Value, v.WellFormed →
      (v.writeAt x (p ++ rest)).writeAt y p = v.writeAt y p)
    {c : Option Value} (hc : ∀ v, c = some v → v.WellFormed) :
    stepInto y p (stepInto x (p ++ rest) c) = stepInto y p c := by
  by_cases hp : p = []
  · rw [hp, stepInto_nil, stepInto_nil]
  · rw [stepInto_of_ne_nil hp, stepInto_of_ne_nil hp, stepInto_of_ne_nil (by simp [hp]),
      Option.getD_some, container_writeAt, h hp _ (WellFormed.container_getD hc)]

/-- **A write absorbs an earlier one at its own place or inside it.** -/
theorem writeAt_absorb {p : List String} (hp : p ≠ []) {v : Value} (hv : v.WellFormed)
    (rest : List String) (x y : Option Value) :
    (v.writeAt x (p ++ rest)).writeAt y p = v.writeAt y p := by
  induction p generalizing v with
  | nil => exact absurd rfl hp
  | cons a p ih =>
    have hstep {c : Option Value} (hc : ∀ v, c = some v → v.WellFormed) :
        stepInto y p (stepInto x (p ++ rest) c) = stepInto y p c :=
      stepInto_absorb (fun hnil _ ↦ ih hnil) hc
    rw [List.cons_append]
    cases hv with
    | record hordered hfields =>
      rw [writeAt_record, writeAt_record, writeAt_record, Record.find?_put_self,
        Record.put_put hordered, hstep fun v hv ↦ WellFormed.find? (.record hordered hfields) hv]
    | list hlength hitems =>
      rename_i items
      rw [writeAt_list, writeAt_list, writeAt_list]
      cases hrow : indexOfText? a with
      | none => simp only [modifyRow_of_none hrow]
      | some i =>
        rw [modifyRow_modifyRow ⟨i, hrow, hrow⟩, modifyRow_congr fun item hitem ↦ ?_]
        have hitem' := hstep (c := some item) fun v hv ↦ Option.some.inj hv ▸ hitems item hitem
        rw [Function.comp_apply]
        by_cases hnil : p = []
        · rw [hnil, stepInto_nil, stepInto_nil]
        · rw [stepInto_of_ne_nil (by simp [hnil] : p ++ rest ≠ [])] at hitem' ⊢
          rw [Option.getD_some, hitem']
    | _ => simp [writeAt_atom]

/-! ## Reading behind a write -/

/-- What holds no values is made an empty record on the way; nothing is found in either. -/
theorem descend?_container {p : List String} (hp : p ≠ []) (v : Value) :
    v.container.descend? p = v.descend? p := by
  cases p with
  | nil => exact absurd rfl hp
  | cons a p => cases v <;> rfl

/-- In the place that a write comes through, a diverging way leads to what it led to before. -/
theorem descend?_stepInto {p q : List String} (hp : p ≠ []) (hq : q ≠ [])
    (h : ∀ v : Value, (v.writeAt x q).descend? p = v.descend? p) (c : Option Value) :
    (stepInto x q c).bind (·.descend? p) = c.bind (·.descend? p) := by
  rw [stepInto_of_ne_nil hq, Option.bind_some, h, descend?_container hp]
  cases c with
  | none =>
    cases p with
    | nil => exact absurd rfl hp
    | cons a p => rfl
  | some v => rfl

/-- **A write is not seen along diverging segments.** -/
theorem descend?_writeAt {p q : List String} (h : Diverging p q) (x : Option Value) (v : Value) :
    (v.writeAt x q).descend? p = v.descend? p := by
  induction h using Diverging.rec_cons generalizing v with
  | cons a b p q h ih =>
    cases v with
    | record fields =>
      rw [writeAt_record, descend?, descend?, child?, child?]
      by_cases hab : a = b
      · -- one field, in which the rests diverge
        subst hab
        have hpq : Diverging p q := h.resolve_left fun h ↦ h.1 rfl
        rw [Record.find?_put_self, descend?_stepInto hpq.ne_nil.1 hpq.ne_nil.2 (ih hpq)]
      · rw [Record.find?_put_of_ne hab]
    | list items =>
      rw [writeAt_list, descend?, descend?, child?, child?, modifyRow]
      cases hb : indexOfText? b with
      | none => rfl
      | some j =>
        cases ha : indexOfText? a with
        | none => rfl
        | some i =>
          simp only [Option.bind_some, List.getElem?_modify, Option.map_eq_map]
          by_cases hij : j = i
          · -- one row, in which the rests diverge
            have hpq : Diverging p q := h.resolve_left fun h ↦ h.2 ⟨i, ha, hij ▸ hb⟩
            cases hitem : items[i]? with
            | none => rfl
            | some item =>
              have hstep := descend?_stepInto (x := x) hpq.ne_nil.1 hpq.ne_nil.2 (ih hpq)
                (some item)
              rw [stepInto_of_ne_nil hpq.ne_nil.2] at hstep
              simpa [hij, stepInto_of_ne_nil hpq.ne_nil.2] using hstep
          · simp [hij]
    | _ => simp [writeAt_atom]

end Value

/-! ## Writes to a record

At the top a whole path may be a name.  Then it is written in place, and this has to do with nothing
else; otherwise the laws of writing along segments apply. -/

namespace Record

open Table

variable {values : Record} {path other : String} {x y : Option Value}

/-- The values of a form as a host holds them. -/
def WellFormed (values : Record) : Prop := (Value.record values).WellFormed

instance (values : Record) : Decidable values.WellFormed :=
  inferInstanceAs (Decidable (Value.record values).WellFormed)

/-- **Paths that lead apart**: their first segments are different names, or behind them they
diverge. -/
def Apart (path other : String) : Prop :=
  match segments path, segments other with
  | a :: p, b :: q => a ≠ b ∨ Value.Diverging p q
  | _, _ => False

theorem apart_iff : Apart path other ↔ ∃ a p b q, segments path = a :: p ∧
    segments other = b :: q ∧ (a ≠ b ∨ Value.Diverging p q) := by
  rw [Apart]
  split
  · rename_i a p b q hp hq
    exact ⟨fun h ↦ ⟨a, p, b, q, hp, hq, h⟩, fun ⟨a', p', b', q', hp', hq', h⟩ ↦ by
      obtain ⟨rfl, rfl⟩ := List.cons.inj (hp.symm.trans hp')
      obtain ⟨rfl, rfl⟩ := List.cons.inj (hq.symm.trans hq')
      exact h⟩
  · rename_i hnone
    exact ⟨False.elim, fun ⟨a, p, b, q, hp, hq, _⟩ ↦ hnone a p b q hp hq⟩

/-- Paths that begin with different names lead apart. -/
theorem apart_of_head_ne {a b : String} {p q : List String} (hp : segments path = a :: p)
    (hq : segments other = b :: q) (hne : a ≠ b) : Apart path other := by
  rw [Apart, hp, hq]
  exact .inl hne

theorem apart_of_head?_ne (h : (segments path).head? ≠ (segments other).head?) :
    Apart path other := by
  cases hpath : segments path with
  | nil => exact absurd hpath (segments_ne_nil path)
  | cons a p =>
    cases hother : segments other with
    | nil => exact absurd hother (segments_ne_nil other)
    | cons b q => exact apart_of_head_ne hpath hother fun heq ↦ h (by rw [hpath, hother, heq]; rfl)

theorem apart_of_ne (hpath : isDotted path = false) (hother : isDotted other = false)
    (hne : path ≠ other) : Apart path other :=
  apart_of_head_ne (segments_of_not_isDotted hpath) (segments_of_not_isDotted hother) hne

/-- Apart from a plain name is what begins with another one. -/
theorem Apart.head?_ne (h : Apart path other) (hother : isDotted other = false) :
    (segments path).head? ≠ some other := by
  obtain ⟨a, p, b, q, hp, hq, h⟩ := apart_iff.1 h
  rw [segments_of_not_isDotted hother] at hq
  obtain ⟨rfl, rfl⟩ := List.cons.inj hq
  rw [hp, List.head?_cons, ne_eq, Option.some.injEq]
  exact h.resolve_right fun hdiverging ↦ hdiverging.ne_nil.2 rfl

/-- To lead apart goes both ways. -/
theorem Apart.symm (h : Apart path other) : Apart other path := by
  obtain ⟨a, p, b, q, hp, hq, h⟩ := apart_iff.1 h
  exact apart_iff.2 ⟨b, q, a, p, hq, hp, h.imp Ne.symm Value.Diverging.symm⟩

theorem Apart.ne (h : Apart path other) : path ≠ other := by
  rintro rfl
  obtain ⟨a, p, b, q, hp, hq, h⟩ := apart_iff.1 h
  obtain ⟨rfl, rfl⟩ := List.cons.inj (hp.symm.trans hq)
  exact h.elim (absurd rfl) (Value.Diverging.irrefl p)

/-- What is apart from a path is apart from what lies inside it. -/
theorem Apart.append (h : Apart path other) (rest : String) :
    Apart path (other ++ "." ++ rest) := by
  obtain ⟨a, p, b, q, hp, hq, h⟩ := apart_iff.1 h
  refine apart_iff.2 ⟨a, p, b, q ++ segments rest, hp, ?_, h.imp_right (·.append _)⟩
  rw [segments_append, hq, List.cons_append]

/-- A path that leads to the place of another one or inside it. -/
def Inside (inner outer : String) : Prop := segments outer <+: segments inner

theorem Inside.refl (path : String) : Inside path path := List.prefix_rfl

theorem WellFormed.ordered (h : values.WellFormed) : Ordered values :=
  (Value.wellFormed_record_iff.1 h).1

theorem WellFormed.find? (h : values.WellFormed) {name : String} {v : Value}
    (hv : Table.find? values name = some v) : v.WellFormed :=
  Value.WellFormed.find? h hv

/-- Under a plain name a write puts. -/
theorem write_of_not_isDotted (h : isDotted path = false) (x : Option Value) :
    values.write path x = values.put path x := by
  rw [write, h]
  rfl

/-- **A path with points that a record holds flat**, as one whole name. -/
def HoldsFlat (values : Record) (path : String) : Prop :=
  isDotted path = true ∧ Table.has values path = true

/-- A record with plain names holds no dotted path flat. -/
theorem Plain.not_holdsFlat (h : values.Plain) (path : String) : ¬values.HoldsFlat path :=
  fun ⟨hdot, hhas⟩ ↦ by
    rw [has, h.find?_eq_none hdot] at hhas
    cases hhas

/-- A path that is held flat is written in place. -/
theorem write_of_holdsFlat (h : values.HoldsFlat path) (x : Option Value) :
    values.write path x = values.put path x := by
  rw [write, h.1, h.2]
  rfl

/-- Writing to a path that is not held flat is writing along segments. -/
theorem write_eq (h : ¬values.HoldsFlat path) (x : Option Value) :
    values.write path x = ((Value.record values).writeAt x (segments path)).fields := by
  cases hpath : isDotted path with
  | false =>
    rw [write_of_not_isDotted hpath, segments_of_not_isDotted hpath, Value.writeAt_record]
    rfl
  | true =>
    have hhas : has values path = false := by simpa [HoldsFlat, hpath] using h
    rw [write, hpath, hhas]
    rfl

/-- **A write to a path that is not held flat** is one along its segments. -/
theorem record_write (h : ¬values.HoldsFlat path) (x : Option Value) :
    Value.record (values.write path x) = (Value.record values).writeAt x (segments path) := by
  rw [write_eq h, ← Value.fields_writeAt]

/-- At the top a write puts something under the first name of its path, unless the path is held
flat. -/
theorem exists_write_eq_put (h : ¬values.HoldsFlat path) (x : Option Value) :
    ∃ name rest, segments path = name :: rest ∧ isDotted name = false ∧
      values.write path x = values.put name (Value.stepInto x rest (Table.find? values name)) := by
  cases hpath : segments path with
  | nil => exact absurd hpath (segments_ne_nil path)
  | cons name rest =>
    refine ⟨name, rest, rfl, isDotted_of_mem_segments (hpath ▸ List.mem_cons_self), ?_⟩
    rw [write_eq h, hpath, Value.writeAt_record]
    rfl

/-- A write to another path keeps what is held flat. -/
theorem holdsFlat_write_iff (hne : path ≠ other) (x : Option Value) :
    (values.write other x).HoldsFlat path ↔ values.HoldsFlat path := by
  refine and_congr_right fun hdot ↦ ?_
  by_cases hflat : values.HoldsFlat other
  · rw [write_of_holdsFlat hflat, has, has, find?_put_of_ne hne]
  · obtain ⟨name, rest, -, hname, heq⟩ := exists_write_eq_put hflat x
    rw [heq, has, has, find?_put_of_ne]
    rintro rfl
    rw [hdot] at hname
    cases hname

theorem Plain.put (h : values.Plain) {name : String} (hname : isDotted name = false)
    (x : Option Value) : (values.put name x).Plain := by
  intro n hn
  cases x with
  | none => exact h n (mem_names_erase.1 hn).2
  | some v => exact (mem_names_insert.1 hn).elim (fun hn ↦ hn ▸ hname) (h n)

/-- Writing keeps names plain: the names it adds at the top are first segments. -/
theorem Plain.write (h : values.Plain) (path : String) (x : Option Value) :
    (values.write path x).Plain := by
  obtain ⟨name, rest, -, hname, heq⟩ := exists_write_eq_put (h.not_holdsFlat path) x
  exact heq ▸ h.put hname _

theorem WellFormed.put (h : values.WellFormed) (name : String)
    (hx : ∀ v, x = some v → v.WellFormed) : (values.put name x).WellFormed := by
  refine .record (h.ordered.put _ _) fun e he ↦ ?_
  rcases mem_put he with he | he
  · exact hx _ he
  · exact (Value.wellFormed_record_iff.1 h).2 e he

/-- **Writing to a form keeps its values as a host holds them.** -/
theorem WellFormed.write (h : values.WellFormed) (path : String)
    (hx : ∀ v, x = some v → v.WellFormed) : (values.write path x).WellFormed := by
  rw [Record.write]
  split
  · exact h.put path hx
  · rw [WellFormed, ← Value.fields_writeAt]
    exact Value.WellFormed.writeAt hx h

/-- **A name that a path does not begin with** keeps its value. -/
theorem Plain.find?_write (h : values.Plain) {name : String}
    (hname : (segments path).head? ≠ some name) (x : Option Value) :
    Table.find? (values.write path x) name = Table.find? values name := by
  obtain ⟨first, rest, hpath, -, heq⟩ := exists_write_eq_put (h.not_holdsFlat path) x
  rw [heq, find?_put_of_ne]
  rintro rfl
  exact hname (by rw [hpath]; rfl)

/-- What is put under a name that is neither the path nor its first segment is not seen there. -/
theorem at?_put_of_ne (hpath : path ≠ other) (hhead : (segments path).head? ≠ some other)
    (x : Option Value) : (values.put other x).at? path = values.at? path := by
  rw [at?, at?, find?_put_of_ne hpath]
  cases hsegments : segments path with
  | nil => exact absurd hsegments (segments_ne_nil path)
  | cons a p =>
    rw [hsegments, List.head?_cons, ne_eq, Option.some.injEq] at hhead
    simp only [Value.descend?, Value.child?, find?_put_of_ne hhead]

/-- What is put under a plain name is not seen at paths that lead apart from it. -/
theorem at?_put (hother : isDotted other = false) (h : Apart path other) (x : Option Value) :
    (values.put other x).at? path = values.at? path :=
  at?_put_of_ne h.ne (h.head?_ne hother) x

/-- A path that is held flat is found as before. -/
theorem find?_write_of_apart (h : Apart path other) (values : Record) (x : Option Value) :
    Table.find? (values.write other x) path = Table.find? values path := by
  rw [write]
  split
  · exact find?_put_of_ne h.ne
  · cases hother : segments other with
    | nil => exact absurd hother (segments_ne_nil other)
    | cons b q =>
      rw [Value.writeAt_record]
      refine find?_put_of_ne ?_
      rintro rfl
      have hplain := isDotted_of_mem_segments (hother ▸ List.mem_cons_self)
      exact h.symm.head?_ne hplain (by rw [hother, List.head?_cons])

/-- **A write is not seen at paths that lead apart from it.** -/
theorem at?_write (h : Apart path other) (values : Record) (x : Option Value) :
    (values.write other x).at? path = values.at? path := by
  by_cases hput : (!isDotted other || Table.has values other) = true
  · rw [write, if_pos hput]
    refine at?_put_of_ne h.ne (fun hhead ↦ ?_) x
    have hplain := isDotted_of_mem_segments (List.mem_of_head? hhead)
    exact h.head?_ne hplain hhead
  · have hfind := find?_write_of_apart h values x
    rw [at?, at?, hfind]
    cases Table.find? values path with
    | some v => rfl
    | none =>
      rw [write, if_neg hput, ← Value.fields_writeAt]
      obtain ⟨a, p, b, q, hp, hq, hab | hpq⟩ := apart_iff.1 h
      · rw [hp, hq, Value.writeAt_record, Value.descend?, Value.descend?, Value.child?,
          Value.child?, find?_put_of_ne hab]
      · rw [hp, hq]
        exact Value.descend?_writeAt (hpq.cons a b) x _

/-- Whether there is anything under the first segment of a path does not depend on other names. -/
theorem any_has_put (h : (segments path).head? ≠ some other) (x : Option Value) :
    (segments path).head?.any (has (values.put other x)) =
      (segments path).head?.any (has values) := by
  cases hhead : (segments path).head? with
  | none => rfl
  | some a =>
    rw [hhead, ne_eq, Option.some.injEq] at h
    rw [Option.any_some, Option.any_some, has, has, find?_put_of_ne h]

/-- A write in place of a path that is held flat commutes with any write to another path. -/
theorem write_comm_of_holdsFlat (hvalues : values.WellFormed) (hflat : values.HoldsFlat path)
    (hne : path ≠ other) (x y : Option Value) :
    (values.write path x).write other y = (values.write other y).write path x := by
  rw [write_of_holdsFlat ((holdsFlat_write_iff hne y).2 hflat), write_of_holdsFlat hflat]
  have hother : (values.put path x).HoldsFlat other ↔ values.HoldsFlat other := by
    rw [← write_of_holdsFlat hflat, holdsFlat_write_iff hne.symm]
  by_cases hflat' : values.HoldsFlat other
  · rw [write_of_holdsFlat (hother.2 hflat'), write_of_holdsFlat hflat',
      put_comm hvalues.ordered hne]
  · obtain ⟨name, rest, hsegments, hname, heq⟩ := exists_write_eq_put hflat' y
    obtain ⟨name', rest', hsegments', -, heq'⟩ := exists_write_eq_put (mt hother.1 hflat') y
    obtain ⟨rfl, rfl⟩ := List.cons.inj (hsegments.symm.trans hsegments')
    have hpath : path ≠ name := by
      rintro rfl
      rw [hflat.1] at hname
      cases hname
    rw [heq, heq', find?_put_of_ne hpath.symm, put_comm hvalues.ordered hpath]

/-- **Writes to paths that lead apart commute.** -/
theorem write_comm (hvalues : values.WellFormed) (h : Apart path other) (x y : Option Value) :
    (values.write path x).write other y = (values.write other y).write path x := by
  by_cases hpath : values.HoldsFlat path
  · exact write_comm_of_holdsFlat hvalues hpath h.ne x y
  by_cases hother : values.HoldsFlat other
  · exact (write_comm_of_holdsFlat hvalues hother h.ne.symm y x).symm
  obtain ⟨a, p, b, q, hp, hq, h'⟩ := apart_iff.1 h
  rw [write_eq (mt (holdsFlat_write_iff h.ne.symm x).1 hother),
    write_eq (mt (holdsFlat_write_iff h.ne y).1 hpath), record_write hpath, record_write hother,
    hp, hq]
  by_cases hab : a = b
  · subst hab
    have hpq := h'.resolve_left fun h ↦ h rfl
    rw [Value.writeAt_comm (hpq.cons a a) hvalues]
  · simp only [Value.writeAt_record, find?_put_of_ne (Ne.symm hab), find?_put_of_ne hab,
      put_comm hvalues.ordered hab]

/-- **A write absorbs an earlier one inside it.** -/
theorem write_absorb (hplain : values.Plain) (hvalues : values.WellFormed)
    (h : Inside path other) (x y : Option Value) :
    (values.write path x).write other y = values.write other y := by
  obtain ⟨rest, hrest⟩ := h
  rw [write_eq ((hplain.write path x).not_holdsFlat other),
    record_write (hplain.not_holdsFlat path), ← hrest,
    Value.writeAt_absorb (segments_ne_nil other) hvalues,
    ← write_eq (hplain.not_holdsFlat other)]

end Record

end ReactiveForm
