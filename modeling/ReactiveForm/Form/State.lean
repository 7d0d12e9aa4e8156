import ReactiveForm.Schema.Basic

/-!
# The state of fields

Whether a field is shown, locked, required or read-only follows from its declaration, the values of
the form, and two flags for the form as a whole.  The flag that locks the form always wins; the one
that makes it read-only counts for those fields that do not say so themselves.

The state of a field inside a group or a list does not depend on that of the container.
-/

set_option autoImplicit false
namespace ReactiveForm

/-- **The state of a field.** -/
structure FieldState where
  visible : Bool
  disabled : Bool
  required : Bool
  readonly : Bool
deriving DecidableEq, Inhabited

/-- The flags of a form as a whole. -/
structure FormFlags where
  /-- Every field is locked. -/
  disabled : Bool := false
  /-- Fields that do not say otherwise are shown without editing. -/
  readonly : Bool := false
deriving DecidableEq

namespace Declaration

/-- Whether a field is shown among the given values. -/
def isVisible (d : Declaration) (values : Record) : Bool :=
  !d.hidden && d.kind != .hidden && holdsIfGiven d.visibleWhen values

/-- Whether a field must have a value among the given values. -/
def isRequiredAt (d : Declaration) (values : Record) : Bool :=
  d.isRequired || givenAndHolds d.requiredWhen values

/-- **The state of a field** among the given values. -/
def state (d : Declaration) (values : Record) (flags : FormFlags) : FieldState where
  visible := d.isVisible values
  disabled := flags.disabled || d.disabled || givenAndHolds d.disabledWhen values
  required := d.isRequiredAt values
  readonly := d.readonly.getD flags.readonly

end Declaration

/-- **The states of all fields**, by name. -/
def Schema.states (s : Schema) (values : Record) (flags : FormFlags) : Table FieldState :=
  Table.ofList (s.allFields.map fun f ↦ (f.name, f.state values flags))

end ReactiveForm
