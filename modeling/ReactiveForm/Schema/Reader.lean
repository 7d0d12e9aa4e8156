import ReactiveForm.Condition.Reader
import ReactiveForm.Schema.Field

/-!
# Reading fields

A field, a rule and a computation are each written as a record of attributes, or as a list of them
in a fixed order, of which the tail may be missing.  An attribute that the record does not have has
its default; `null` stands for the absence of an attribute that may be absent, and for nothing else.
A record with an attribute that does not exist is refused, except that a rule may have any.

What exists in code alone (validators and transforms) is not an attribute.
-/

set_option autoImplicit false
namespace ReactiveForm

/-! ## Attributes -/

/-- **The attributes a value gives**, by name: those of a record, or those of a list in the given
order.  If `closed`, a record has no others. -/
def attributes? (names : List String) (closed : Bool) : Value → Option Record
  | .record fields => if closed && fields.any fun e ↦ !names.contains e.1 then none else some fields
  | .list items => if items.length ≤ names.length then some (names.zip items) else none
  | _ => none

/-- An attribute that has a default. -/
def withDefault {α : Type} (read : Value → Option α) (default : α) : Option Value → Option α
  | none => some default
  | some v => read v

/-- An attribute that may be absent. -/
def ifGiven {α : Type} (read : Value → Option α) : Option Value → Option (Option α)
  | none | some .null => some none
  | some v => (read v).map some

namespace Value

/-- The text a value is. -/
def text? : Value → Option String
  | .text s => some s
  | _ => none

/-- The flag a value is. -/
def flag? : Value → Option Bool
  | .bool flag => some flag
  | _ => none

/-- The items of a list, each read in the same way. -/
def itemsBy? {α : Type} (read : Value → Option α) : Value → Option (List α)
  | .list items => items.mapM read
  | _ => none

/-- The choice a value names, by a text or by a record that has nothing under the name. -/
def choice? {α : Type} (named : String → Option α) : Value → Option α
  | .text name => named name
  | .record [(name, .null)] => named name
  | _ => none

end Value

private theorem sizeOf_lt_of_find?_zip {names : List String} {items : List Value} {name : String}
    {v : Value} (h : Table.find? (names.zip items) name = some v) : v ∈ items := by
  induction names generalizing items with
  | nil => simp [Table.find?] at h
  | cons n names ih =>
    cases items with
    | nil => simp [Table.find?] at h
    | cons w items =>
      simp only [Table.find?, List.zip_cons_cons, List.lookup_cons] at h
      split at h
      · simp_all
      · exact List.mem_cons_of_mem _ (ih h)

/-- **What an attribute holds is smaller** than the value that gives it. -/
theorem sizeOf_lt_of_attributes? {names : List String} {closed : Bool} {v w : Value}
    {given : Record} {name : String} (hv : attributes? names closed v = some given)
    (hw : given.find? name = some w) : sizeOf w < sizeOf v := by
  unfold attributes? at hv
  split at hv
  · split at hv
    · simp at hv
    · simp only [Option.some.injEq] at hv
      subst hv
      exact sizeOf_lt_of_find? hw
  · split at hv
    · simp only [Option.some.injEq] at hv
      subst hv
      have := List.sizeOf_lt_of_mem (sizeOf_lt_of_find?_zip hw)
      simp only [Value.list.sizeOf_spec]
      omega
    · simp at hv
  · simp at hv

/-! ## Rules and computations -/

/-- The name of a way of rounding in a schema. -/
def Rounding.key : Rounding → String
  | .nearest => "round"
  | .ceiling => "ceil"
  | .floor => "floor"

/-- The way of rounding with a name. -/
def Rounding.ofKey? (key : String) : Option Rounding :=
  [Rounding.nearest, .ceiling, .floor].find? fun r ↦ r.key == key

/-- **The rule a value describes.** -/
def Rule.ofValue? (v : Value) : Option Rule := do
  let given ← attributes? ["type", "value", "message"] false v
  let kind ← (← given.find? "type").choice? RuleKind.ofKey?
  let argument ← ifGiven some (given.find? "value")
  let message ← ifGiven Value.text? (given.find? "message")
  some ⟨kind, argument, message, none⟩

/-- The number of places a value gives, which is below `2 ^ 32`. -/
def Value.places? (v : Value) : Option Nat := v.count?.filter (· < UInt32.size)

/-- **The computation a value describes.** -/
def Computation.ofValue? (v : Value) : Option Computation := do
  let given ← attributes? ["expr", "dependencies", "precision", "roundMode"] true v
  let source ← (← given.find? "expr").text?
  let dependencies ← ifGiven (Value.itemsBy? Value.text?) (given.find? "dependencies")
  let places ← ifGiven Value.places? (given.find? "precision")
  let rounding ← withDefault (Value.choice? Rounding.ofKey?) .nearest (given.find? "roundMode")
  some ⟨source, dependencies, places, rounding⟩

/-! ## Fields -/

namespace Field

/-- The attributes of a field, in their order. -/
def attributeNames : List String :=
  ["name", "label", "component", "kind", "multiple", "defaultValue", "rules", "visibleWhen",
   "disabledWhen", "requiredWhen", "compute", "dependencies", "columns", "minItems", "maxItems",
   "hidden", "disabled", "readonly", "noSubmit", "clearOnChange"]

end Field

/-- A condition that a value describes; every value describes one. -/
private def conditionOf? (v : Value) : Option Condition := some (.ofValue v)

/-- The declaration of a field with the given attributes. -/
def Declaration.ofAttributes? (given : Record) : Option Declaration := do
  let name ← (← given.find? "name").text?
  let label ← ifGiven Value.text? (given.find? "label")
  let component ← withDefault Value.text? "" (given.find? "component")
  let explicitKind ← ifGiven (Value.choice? Kind.ofKey?) (given.find? "kind")
  let multiple ← withDefault Value.flag? false (given.find? "multiple")
  let defaultValue ← ifGiven some (given.find? "defaultValue")
  let rules ← withDefault (Value.itemsBy? Rule.ofValue?) [] (given.find? "rules")
  let visibleWhen ← ifGiven conditionOf? (given.find? "visibleWhen")
  let disabledWhen ← ifGiven conditionOf? (given.find? "disabledWhen")
  let requiredWhen ← ifGiven conditionOf? (given.find? "requiredWhen")
  let computation ← ifGiven Computation.ofValue? (given.find? "compute")
  let dependencies ← withDefault (Value.itemsBy? Value.text?) [] (given.find? "dependencies")
  let minItems ← ifGiven Value.count? (given.find? "minItems")
  let maxItems ← ifGiven Value.count? (given.find? "maxItems")
  let hidden ← withDefault Value.flag? false (given.find? "hidden")
  let disabled ← withDefault Value.flag? false (given.find? "disabled")
  let readonly ← ifGiven Value.flag? (given.find? "readonly")
  let noSubmit ← withDefault Value.flag? false (given.find? "noSubmit")
  let clearOnChange ← withDefault Value.flag? false (given.find? "clearOnChange")
  some { name, label, component, explicitKind, multiple, defaultValue, rules, visibleWhen,
         disabledWhen, requiredWhen, computation, dependencies, minItems, maxItems, hidden,
         disabled, readonly, noSubmit, clearOnChange }

namespace Field

mutual

/-- **The field a value describes.** -/
def ofValue? (v : Value) : Option Field :=
  match _hv : attributes? attributeNames true v with
  | none => none
  | some given =>
    match _hc : Table.find? given "columns" with
    | none => (Declaration.ofAttributes? given).map fun d ↦ ⟨d, []⟩
    | some (.list items) =>
      (Declaration.ofAttributes? given).bind fun d ↦ (ofItems? items).map fun columns ↦ ⟨d, columns⟩
    | some _ => none
termination_by sizeOf v
decreasing_by
  have h := sizeOf_lt_of_attributes? _hv _hc
  simp only [Value.list.sizeOf_spec] at h
  omega

/-- The fields the items of a list describe. -/
def ofItems? : List Value → Option (List Field)
  | [] => some []
  | v :: vs => (ofValue? v).bind fun f ↦ (ofItems? vs).map (f :: ·)
termination_by vs => sizeOf vs
decreasing_by
  · simp only [List.cons.sizeOf_spec]; omega
  · simp only [List.cons.sizeOf_spec]; omega

end

end Field

/-- **The fields of the form that a value describes**, under its only attribute. -/
def fieldsOfForm? (v : Value) : Option (List Field) :=
  match attributes? ["fields"] true v with
  | some given =>
    match given.find? "fields" with
    | some (.list items) => Field.ofItems? items
    | _ => none
  | none => none

end ReactiveForm
