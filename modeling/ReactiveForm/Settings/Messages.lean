import ReactiveForm.Schema.Field
import ReactiveForm.Text.Word
import ReactiveForm.Value.Render

/-!
# Messages

What a validation says is written in templates, one for each kind of failure.  A template may show
the label of the field and the argument of the rule, each by a mark of its own.  The label is put
in first: what it brings along is a part of the template when the argument is put in.

A rule that has a message of its own uses that one as it stands.
-/

set_option autoImplicit false
namespace ReactiveForm

/-- The mark that shows the label of the field. -/
def labelMark : String := "\x7blabel\x7d"

/-- The mark that shows the argument of the rule. -/
def valueMark : String := "\x7bvalue\x7d"

/-- **The text of a template** with a label and an argument. -/
def expandTemplate (template label value : String) : String :=
  String.ofList (replaceWord valueMark.toList value.toList
    (replaceWord labelMark.toList label.toList template.toList))

/-- **The templates**, one for each kind of failure. -/
structure Messages where
  required : String := labelMark ++ " is required"
  minLength : String := labelMark ++ " must be at least " ++ valueMark ++ " characters"
  maxLength : String := labelMark ++ " must be at most " ++ valueMark ++ " characters"
  min : String := labelMark ++ " must be at least " ++ valueMark
  max : String := labelMark ++ " must be at most " ++ valueMark
  pattern : String := labelMark ++ " has an invalid format"
  email : String := labelMark ++ " must be a valid email address"
  url : String := labelMark ++ " must be a valid URL"
  /-- A numeric field holds something that is no number. -/
  number : String := labelMark ++ " must be a number"
  /-- A text field holds something that is no text. -/
  text : String := labelMark ++ " must be text"
  /-- A validator of the host refuses the value. -/
  custom : String := labelMark ++ " is invalid"
  /-- A validator of the host comes to grief. -/
  customError : String := "validation failed"
  minItems : String := labelMark ++ " requires at least " ++ valueMark ++ " items"
  maxItems : String := labelMark ++ " allows at most " ++ valueMark ++ " items"
  /-- A list field holds something that is no list of rows. -/
  listType : String := labelMark ++ " must be a list of rows"
deriving DecidableEq

namespace Messages

/-- The template for a rule of a kind that fails. -/
def ofKind (m : Messages) : RuleKind → String
  | .required => m.required
  | .minLength => m.minLength
  | .maxLength => m.maxLength
  | .min => m.min
  | .max => m.max
  | .pattern => m.pattern
  | .email => m.email
  | .url => m.url
  | .array => m.minItems
  | .custom => m.custom

/-- The templates by the names they have in the settings, in the order in which they are checked. -/
def entries (m : Messages) : List (String × String) :=
  [("required", m.required), ("min_length", m.minLength), ("max_length", m.maxLength),
   ("min", m.min), ("max", m.max), ("pattern", m.pattern), ("email", m.email), ("url", m.url),
   ("number", m.number), ("text", m.text), ("custom", m.custom), ("custom_error", m.customError),
   ("min_items", m.minItems), ("max_items", m.maxItems), ("list_type", m.listType)]

end Messages

/-- The argument of a rule as a message shows it. -/
def Rule.argumentText (r : Rule) : String :=
  match r.argument with
  | none | some .null => ""
  | some (.text s) => s
  | some v => v.toText

namespace Declaration

/-- The message a template makes for a field. -/
def expand (d : Declaration) (template value : String) : String :=
  expandTemplate template d.displayLabel value

/-- The message for a rule that fails. -/
def ruleMessage (d : Declaration) (m : Messages) (r : Rule) : String :=
  r.message.getD (d.expand (m.ofKind r.kind) r.argumentText)

/-- The message for a value that must be there and is not. -/
def requiredMessage (d : Declaration) (m : Messages) : String :=
  ((d.rule? .required).bind (·.message)).getD (d.expand m.required "")

end Declaration

end ReactiveForm
