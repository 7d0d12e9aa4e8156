import ReactiveForm.Condition.Basic
import ReactiveForm.Expression.Compute
import ReactiveForm.Expression.Reads
import ReactiveForm.Schema.Kind
import ReactiveForm.Schema.Rule

/-!
# Fields

A form is a tree of fields.  What is said about one field, its *declaration*, is the same for a
leaf and for a container; containers have columns as well.  The fields inside a group are fields of
the form, under their own names; the columns of a list are fields of each of its rows.

Most of what is asked about a field depends on its declaration alone, and is defined on it.
-/

set_option autoImplicit false
namespace ReactiveForm

/-- **How the value of a field is computed.** -/
structure Computation where
  /-- The text of the expression. -/
  source : String
  /-- The paths it may read; if they are not given, its text tells. -/
  dependencies : Option (List String) := none
  /-- The decimal places that numbers are rounded to. -/
  places : Option Nat := none
  rounding : Rounding := .nearest

/-- The paths a computation reads, those declared or else those inferred. -/
def Computation.inputs (c : Computation) : List String :=
  c.dependencies.getD (inferredReads c.source)

/-- The value a computation has among other values.  A text that is no expression computes
nothing. -/
def Computation.evaluate (c : Computation) (values : Record) : Option Value :=
  match Expression.ofText c.source with
  | .ok e => e.evaluate values c.inputs c.places c.rounding
  | .error _ => none

/-- A change of the host to a value that is submitted, given the values of the form. -/
abbrev Transform := Value → Record → Value

/-- **What is said about one field**, its columns apart. -/
structure Declaration where
  /-- The path of the field's value. -/
  name : String := ""
  label : Option String := none
  /-- The name of the widget. -/
  component : String := ""
  /-- The kind, where the widget does not tell it. -/
  explicitKind : Option Kind := none
  /-- Whether a choice may take several options. -/
  multiple : Bool := false
  defaultValue : Option Value := none
  rules : List Rule := []
  visibleWhen : Option Condition := none
  disabledWhen : Option Condition := none
  requiredWhen : Option Condition := none
  computation : Option Computation := none
  /-- Further paths the field reacts to. -/
  dependencies : List String := []
  minItems : Option Nat := none
  maxItems : Option Nat := none
  hidden : Bool := false
  disabled : Bool := false
  /-- Whether the field is shown without editing; if it does not say, the form decides. -/
  readonly : Option Bool := none
  /-- Whether the field is left out of what is submitted. -/
  noSubmit : Bool := false
  /-- Whether the field is cleared when something it reacts to changes. -/
  clearOnChange : Bool := false
  transform : Option Transform := none
deriving Inhabited

/-- **A field**: its declaration and, of a container, the fields inside. -/
structure Field extends Declaration where
  columns : List Field := []
deriving Inhabited

namespace Declaration

/-- The kind of a field. -/
def kind (d : Declaration) : Kind := d.explicitKind.getD (.ofComponent d.component)

/-- The label of a field, which is its name if it has none. -/
def displayLabel (d : Declaration) : String := d.label.getD d.name

/-- The first rule of a kind. -/
def rule? (d : Declaration) (kind : RuleKind) : Option Rule := d.rules.find? fun r ↦ r.kind = kind

/-- Whether the value must be there whatever the other values are. -/
def isRequired (d : Declaration) : Bool := d.rules.any fun r ↦ r.kind = .required

/-- The conditions of a field. -/
def conditions (d : Declaration) : List Condition :=
  d.visibleWhen.toList ++ d.disabledWhen.toList ++ d.requiredWhen.toList

/-- **The set of paths a field reacts to**: those it names, those its conditions read, and those
its computation reads. -/
def reactsTo (d : Declaration) : Names :=
  Names.ofList (d.dependencies ++ d.conditions.flatMap Condition.reads ++
    (d.computation.map Computation.inputs).getD [])

end Declaration

/-! ## Trees of fields -/

mutual

/-- A field and all fields inside it, each before those inside it. -/
def Field.subtree : Field → List Field
  | ⟨d, columns⟩ => ⟨d, columns⟩ :: preorder columns

/-- **All fields of some trees**, each before those inside it. -/
def preorder : List Field → List Field
  | [] => []
  | f :: fs => f.subtree ++ preorder fs

end

mutual

/-- The cells that a column puts into a row: itself, unless it is a group. -/
def Field.cells : Field → List Field
  | ⟨d, columns⟩ => if d.kind = .group then cellsOf columns else [⟨d, columns⟩]

/-- **The cells of a row** with some columns: groups give way to what is inside them. -/
def cellsOf : List Field → List Field
  | [] => []
  | f :: fs => f.cells ++ cellsOf fs

end

mutual

/-- The lists of a field that are reached without entering a list. -/
def Field.outerLists : Field → List Field
  | ⟨d, columns⟩ =>
    if d.kind = .list then [⟨d, columns⟩] else if d.kind = .group then outerListsOf columns else []

/-- **The lists of some fields** that are reached without entering a list. -/
def outerListsOf : List Field → List Field
  | [] => []
  | f :: fs => f.outerLists ++ outerListsOf fs

end

mutual

/-- The names inside a field that are those of columns of a list. -/
def Field.rowNames (inList : Bool) : Field → List String
  | ⟨d, columns⟩ =>
    (if inList then [d.name] else []) ++ rowNamesOf (inList || d.kind = .list) columns

/-- **The names that are those of columns of a list**, among some fields, which may be columns of
a list themselves. -/
def rowNamesOf (inList : Bool) : List Field → List String
  | [] => []
  | f :: fs => f.rowNames inList ++ rowNamesOf inList fs

end

end ReactiveForm
