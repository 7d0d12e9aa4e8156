import ReactiveForm.Form.Recompute
import ReactiveForm.Form.Submission
import ReactiveForm.Form.Validation
import ReactiveForm.Settings.Basic

/-!
# Forms

A form is a schema with settings.  It holds no values: whatever is asked of it is a function of the
values it is given.
-/

set_option autoImplicit false
namespace ReactiveForm

/-- **A form.** -/
structure Form where
  schema : Schema
  settings : Settings

namespace Form

/-- The form with the given fields, or why there is none. -/
def ofFields (settings : Settings) (fields : List Field) : Except SchemaError Form :=
  (Schema.ofFields settings.maxConditionDepth fields).map fun schema ↦ ⟨schema, settings⟩

/-- The values a form starts with. -/
def initialValues (f : Form) (given : Record) : Record := f.schema.initialValues given

/-- The states of all fields. -/
def states (f : Form) (values : Record) : Table FieldState :=
  f.schema.states values f.settings.flags

/-- **What follows from a change of the values.** -/
def recompute (f : Form) (previous : Option Record) (next : Record) : Update :=
  f.schema.recompute f.settings.flags f.settings.changeEpsilon previous next

/-- **Validates values.** -/
def validate (f : Form) (values : Record) : Outcome :=
  f.schema.validate { toMessages := f.settings.messages } values

/-- What the form submits. -/
def submission (f : Form) (values : Record) : Record := f.schema.submission values

end Form

end ReactiveForm
