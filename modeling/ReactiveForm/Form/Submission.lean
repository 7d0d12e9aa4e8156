import ReactiveForm.Schema.Basic
import ReactiveForm.Value.Write

/-!
# Submission

What a form submits is read off the tree of its fields, so a value without a field is never
submitted.  A field that is not to be submitted is left out with everything inside it, and so is a
field without a value.  Groups give way to what is inside them; of the rows of a list only the
columns are kept.  A field with points in its name is submitted nested, in records of its own.
-/

set_option autoImplicit false
namespace ReactiveForm

/-- Puts a value at the end of a way through records, made on the way where there are none. -/
def Record.nest (value : Value) : List String → Record → Record
  | [], fields => fields
  | [name], fields => fields.insert name value
  | name :: rest, fields =>
    let inner := ((fields.find? name).getD .null).fields
    fields.insert name (.record (Record.nest value rest inner))

/-- **The record of values by the paths** at which they are to be found in it. -/
def nested (entries : List (String × Value)) : Record :=
  entries.foldl (fun fields e ↦ Record.nest e.2 (segments e.1) fields) []

mutual

/-- What a field submits, by its name: its value among the given ones, of a list the columns of
each row, and all of it changed by the host where the field says so. -/
def Field.submitted (snapshot source : Record) : Field → List (String × Value)
  | ⟨d, columns⟩ =>
    if d.noSubmit then []
    else if d.kind = .group then submittedOf snapshot source columns
    else
      match source.at? d.name with
      | none => []
      | some v =>
        let v := match d.kind, v with
          | .list, .list rows => .list (rows.map fun
            | .record row => .record (nested (submittedOf snapshot row columns))
            | row => row)
          | _, v => v
        [(d.name, match d.transform with
          | some transform => transform v snapshot
          | none => v)]

/-- What some fields submit. -/
def submittedOf (snapshot source : Record) : List Field → List (String × Value)
  | [] => []
  | f :: fs => f.submitted snapshot source ++ submittedOf snapshot source fs

end

/-- **What a form submits.** -/
def Schema.submission (s : Schema) (values : Record) : Record :=
  nested (submittedOf values values s.fields)

end ReactiveForm
