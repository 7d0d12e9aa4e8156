import ReactiveForm.Value.Basic

/-!
# Rules

A field carries rules that its value is checked against.  What a rule asks is its kind; most kinds
take an argument, and a rule whose argument does not fit its kind asks nothing.  A rule of the kind
`custom` is a function of the host's own: it is given the value and the values of the whole form,
or those of a row laid over them.
-/

set_option autoImplicit false
namespace ReactiveForm

/-- **What a rule asks of a value.** -/
inductive RuleKind where
  | required
  | minLength
  | maxLength
  | min
  | max
  | pattern
  | email
  | url
  /-- A least number of files. -/
  | array
  | custom
deriving DecidableEq, Inhabited

namespace RuleKind

/-- All kinds of rules. -/
def all : List RuleKind :=
  [.required, .minLength, .maxLength, .min, .max, .pattern, .email, .url, .array, .custom]

/-- The name of a kind of rule in a schema. -/
def key : RuleKind → String
  | .required => "required"
  | .minLength => "minLength"
  | .maxLength => "maxLength"
  | .min => "min"
  | .max => "max"
  | .pattern => "pattern"
  | .email => "email"
  | .url => "url"
  | .array => "array"
  | .custom => "custom"

/-- The kind of rule with a name. -/
def ofKey? (key : String) : Option RuleKind := all.find? fun k ↦ k.key == key

end RuleKind

/-- What a validator of the host says about a value. -/
inductive Verdict where
  | passes
  /-- The value is refused, with the message of the rule or that of the settings. -/
  | fails
  /-- The value is refused with a message of its own. -/
  | failsWith (message : String)
  /-- The validator itself came to grief. -/
  | breaksDown

/-- A validator of the host: of a value, and of the values around it. -/
abbrev Validator := Value → Record → Verdict

/-- **A rule** of a field. -/
structure Rule where
  kind : RuleKind
  /-- The bound, the pattern or the count. -/
  argument : Option Value := none
  /-- The message that takes the place of the one in the settings. -/
  message : Option String := none
  validator : Option Validator := none

namespace Rule

/-- The rule that a value must be there. -/
def required : Rule := ⟨.required, none, none, none⟩

/-- The rule that a validator of the host must pass. -/
def custom (validator : Validator) : Rule := ⟨.custom, none, none, some validator⟩

/-- The argument as a number, if it is one. -/
def number? (r : Rule) : Option Binary64 := r.argument.bind Value.number?

/-- The argument as a count, if it is one. -/
def count? (r : Rule) : Option Nat := r.argument.bind Value.count?

/-- The argument as the source of a pattern, if the rule asks for one. -/
def patternSource? (r : Rule) : Option String :=
  match r.kind, r.argument with
  | .pattern, some (.text source) => some source
  | _, _ => none

end Rule

end ReactiveForm
