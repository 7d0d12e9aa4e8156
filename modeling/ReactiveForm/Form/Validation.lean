import ReactiveForm.Form.Check

/-!
# Validation

Which fields are checked, and which of them are required, is settled on one set of values; the
check itself may be of another.  Fields that are not shown are left out with everything inside them,
and groups give way to what is inside them.

A list is checked row by row.  The conditions and validators of a column see the values of its row
laid over those around the row.  A failure is kept with the path of the value: `items.0.qty` is
column `qty` of the first row of `items`.  Of several failures at one path the first one counts, and
no failure keeps another field from being checked.
-/

set_option autoImplicit false
namespace ReactiveForm

/-- Messages with the paths they belong to, in the order in which they are found. -/
abbrev Failures := List (String × String)

/-! ## Lists -/

/-- The rows of a list, if its value is a list of records or is not there. -/
def rowsOf? : Option Value → Option (List Record)
  | none | some .null => some []
  | some (.list items) => items.mapM fun
    | .record row => some row
    | _ => none
  | some _ => none

/-- The failures of the number of rows. -/
def rowCountFailures (m : Criteria) (d : Declaration) (count : Nat) : List String :=
  ((d.minItems.filter (count < ·)).map fun bound ↦ d.expand m.minItems (toString bound)).toList ++
    ((d.maxItems.filter (· < count)).map fun bound ↦ d.expand m.maxItems (toString bound)).toList

/-- The path of a row of the list at a path. -/
def rowPath (path : String) (index : Nat) : String := path ++ "." ++ toString index

/-- The failures of a list, given those of a row by its path, its values, and these laid over the
values around it. -/
def listFailures (m : Criteria) (d : Declaration)
    (rowFailures : String → Record → Record → Failures) (path : String) (value : Option Value)
    (required : Bool) (scope : Record) : Failures :=
  match rowsOf? value with
  | none => [(path, d.expand m.listType "")]
  | some rows =>
    if required && rows.isEmpty then [(path, d.requiredMessage m)]
    else
      (rowCountFailures m d rows.length).map (path, ·) ++
        rows.zipIdx.flatMap fun (row, i) ↦ rowFailures (rowPath path i) row (scope.overlay row)

/-- The failures of the field at a path, given those of a row. -/
def Declaration.failuresAt (m : Criteria) (d : Declaration)
    (rowFailures : String → Record → Record → Failures) (path : String) (value : Option Value)
    (required : Bool) (scope : Record) : Failures :=
  if d.kind = .list then listFailures m d rowFailures path value required scope
  else ((d.failure? m value required scope).map (path, ·)).toList

mutual

/-- The failures of one column of a row. -/
def columnFailures (m : Criteria) : Field → String → Record → Record → Failures
  | ⟨d, columns⟩, path, row, scope =>
    if !d.isVisible scope then []
    else if d.kind = .group then rowFailures m columns path row scope
    else d.failuresAt m (rowFailures m columns) (path ++ "." ++ d.name) (row.at? d.name)
      (d.isRequiredAt scope) scope

/-- **The failures of a row** with some columns, at a path, among the values of its scope. -/
def rowFailures (m : Criteria) : List Field → String → Record → Record → Failures
  | [], _, _, _ => []
  | f :: fs, path, row, scope =>
    columnFailures m f path row scope ++ rowFailures m fs path row scope

end

/-! ## Forms -/

/-- A field that is to be checked, and whether it must have a value. -/
structure Checked where
  field : Field
  required : Bool

mutual

/-- What is to be checked of a field among the given values. -/
def Field.checked (values : Record) : Field → List Checked
  | ⟨d, columns⟩ =>
    if !d.isVisible values then []
    else if d.kind = .group then checkedOf values columns
    else [⟨⟨d, columns⟩, d.isRequiredAt values⟩]

/-- **What is to be checked of some fields** among the given values. -/
def checkedOf (values : Record) : List Field → List Checked
  | [] => []
  | f :: fs => f.checked values ++ checkedOf values fs

end

/-- The failures of a field that is to be checked among the given values. -/
def Checked.failures (m : Criteria) (c : Checked) (values : Record) : Failures :=
  c.field.failuresAt m (rowFailures m c.field.columns) c.field.name (values.at? c.field.name)
    c.required values

/-- **What a validation comes to.** -/
inductive Outcome where
  /-- The values that were checked. -/
  | valid (values : Record)
  /-- The first message at each path that fails. -/
  | invalid (messages : Table String)

/-- The outcome of checking some fields among the given values. -/
def outcomeOf (m : Criteria) (plan : List Checked) (values : Record) : Outcome :=
  match plan.flatMap (·.failures m values) with
  | [] => .valid values
  | failures => .invalid (Table.ofFirst failures)

/-- What is to be checked of a form among the given values. -/
def Schema.checked (s : Schema) (values : Record) : List Checked := checkedOf values s.fields

/-- **Validates the values of a form.** -/
def Schema.validate (s : Schema) (m : Criteria) (values : Record) : Outcome :=
  outcomeOf m (s.checked values) values

/-- The message at a path, if it fails. -/
def Outcome.messageAt? (o : Outcome) (path : String) : Option String :=
  match o with
  | .valid _ => none
  | .invalid messages => messages.find? path

end ReactiveForm
