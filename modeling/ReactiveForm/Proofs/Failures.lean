import ReactiveForm.Form.Recompute
import ReactiveForm.Form.Validation
import ReactiveForm.Proofs.Table

/-!
# What a validation reports

A form is validated in two ways.  Its own fields are first collected, and then checked; the columns
of a row are checked as they are met.  `failuresAmong` is what both come to: the failures of some
fields whose values are read from one record, whose conditions and validators see the values of a
scope, and whose paths are told by their names.  For the fields of a form the two records are the
same and a path is a name (`flatMap_checkedOf`); for the columns of a row the scope is the row laid
over the values around it, and a path is that of a cell (`rowFailures_eq`).

Of the failures at one path the first one is reported, and a form without failures is valid
(`Schema.validate_eq`).
-/

set_option autoImplicit false
namespace ReactiveForm

variable {m : Criteria} {d : Declaration} {values source scope : Record} {path : String}

/-! ## Failures among fields -/

mutual

/-- The failures of a field whose value is read from `source`, among the values of a scope. -/
def Field.failuresAmong (m : Criteria) (locate : String → String) (source scope : Record) :
    Field → Failures
  | ⟨d, columns⟩ =>
    if !d.isVisible scope then []
    else if d.kind = .group then ReactiveForm.failuresAmong m locate source scope columns
    else d.failuresAt m (rowFailures m columns) (locate d.name) (source.at? d.name)
      (d.isRequiredAt scope) scope

/-- **The failures of some fields** whose values are read from `source`, among the values of a
scope; `locate` tells the path that belongs to a name. -/
def failuresAmong (m : Criteria) (locate : String → String) (source scope : Record) :
    List Field → Failures
  | [] => []
  | f :: fs => f.failuresAmong m locate source scope ++ failuresAmong m locate source scope fs

end

mutual

theorem columnFailures_eq (index : Nat) : ∀ f : Field,
    columnFailures m f (rowPath path index) source scope =
      f.failuresAmong m (cellPath path index) source scope
  | ⟨d, columns⟩ => by
    rw [columnFailures, Field.failuresAmong, rowFailures_eq index columns]
    rfl

/-- **The failures of a row** are those of its columns at the paths of their cells. -/
theorem rowFailures_eq (index : Nat) : ∀ fs : List Field,
    rowFailures m fs (rowPath path index) source scope =
      failuresAmong m (cellPath path index) source scope fs
  | [] => by rw [rowFailures, failuresAmong]
  | f :: fs => by
    rw [rowFailures, failuresAmong, columnFailures_eq index f, rowFailures_eq index fs]

end

mutual

theorem Field.flatMap_checked : ∀ f : Field,
    (f.checked values).flatMap (·.failures m values) = f.failuresAmong m id values values
  | ⟨d, columns⟩ => by
    rw [Field.checked, Field.failuresAmong]
    split
    · rfl
    · split
      · exact flatMap_checkedOf columns
      · rw [List.flatMap_singleton]
        rfl

/-- **The failures of what is checked of a form** are those of its fields at their names. -/
theorem flatMap_checkedOf : ∀ fs : List Field,
    (checkedOf values fs).flatMap (·.failures m values) = failuresAmong m id values values fs
  | [] => by rw [checkedOf, failuresAmong, List.flatMap_nil]
  | f :: fs => by
    rw [checkedOf, failuresAmong, List.flatMap_append, f.flatMap_checked, flatMap_checkedOf fs]

end

/-! ## Lists -/

theorem rowsOf?_list_eq_some_iff {items : List Value} {rows : List Record} :
    rowsOf? (some (.list items)) = some rows ↔ items = rows.map .record := by
  induction items generalizing rows with
  | nil => cases rows <;> simp [rowsOf?]
  | cons v items ih =>
    rw [rowsOf?] at ih
    rw [rowsOf?, List.mapM_cons]
    cases v with
    | record row =>
      cases rows with
      | nil => simp [Option.bind_eq_some_iff]
      | cons first rows => simpa [Option.bind_eq_some_iff, ih] using and_comm
    | _ => cases rows <;> simp

/-- **What a list is read as**: a list of records, or nothing. -/
theorem rowsOf?_eq_some_iff {value : Option Value} {rows : List Record} :
    rowsOf? value = some rows ↔ value = some (.list (rows.map .record)) ∨
      rows = [] ∧ (value = none ∨ value = some .null) := by
  cases value with
  | none => simp [rowsOf?, eq_comm]
  | some v =>
    cases v with
    | list items => simp [rowsOf?_list_eq_some_iff]
    | _ => simp [rowsOf?, eq_comm]

/-! ## The outcome -/

/-- **What a validation comes to**: the first failure at each path, if there is any. -/
theorem Schema.validate_eq (s : Schema) (m : Criteria) (values : Record) :
    s.validate m values = match failuresAmong m id values values s.fields with
      | [] => .valid values
      | failures => .invalid (Table.ofFirst failures) := by
  rw [validate, outcomeOf, checked, flatMap_checkedOf]
  rfl

theorem Schema.validate_eq_valid_iff {s : Schema} {m : Criteria} {values : Record} :
    s.validate m values = .valid values ↔ failuresAmong m id values values s.fields = [] := by
  rw [validate_eq]
  split <;> simp_all

theorem Schema.messageAt?_validate (s : Schema) (m : Criteria) (values : Record) (path : String) :
    (s.validate m values).messageAt? path =
      Table.find? (failuresAmong m id values values s.fields) path := by
  rw [validate_eq]
  split
  · rename_i hnone
    rw [hnone]
    rfl
  · exact Table.find?_ofFirst _ path

/-- **Two schemas come to the same** if they find the same failure at every path. -/
theorem Schema.validate_congr {s t : Schema} {m : Criteria} {values : Record}
    (h : ∀ path, Table.find? (failuresAmong m id values values s.fields) path =
      Table.find? (failuresAmong m id values values t.fields) path) :
    s.validate m values = t.validate m values := by
  have htable : Table.ofFirst (failuresAmong m id values values s.fields) =
      Table.ofFirst (failuresAmong m id values values t.fields) :=
    (Table.Ordered.ofFirst _).ext (Table.Ordered.ofFirst _) fun path ↦ by
      rw [Table.find?_ofFirst, Table.find?_ofFirst, h]
  rw [validate_eq, validate_eq]
  cases hs : failuresAmong m id values values s.fields with
  | nil =>
    cases ht : failuresAmong m id values values t.fields with
    | nil => rfl
    | cons e failures => simpa [hs, ht, Table.find?_cons] using h e.1
  | cons e failures =>
    cases ht : failuresAmong m id values values t.fields with
    | nil => simpa [hs, ht, Table.find?_cons] using h e.1
    | cons e' failures' =>
      rw [hs, ht] at htable
      simp only [htable]

end ReactiveForm
