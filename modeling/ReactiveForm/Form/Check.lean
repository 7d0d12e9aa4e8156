import ReactiveForm.Form.State
import ReactiveForm.Settings.Messages
import ReactiveForm.Text.Email
import ReactiveForm.Url.Basic

/-!
# Checking single values

Each kind of field has its own notion of a value that is there, and its own checks of such a value.
Rules about the form of a value are asked only of values that are there, so an optional field that
is empty never fails.  The first check that fails decides the message, in the order of the rules of
the field.

Lists are not checked here, because what is in their rows is checked field by field.
-/

set_option autoImplicit false
namespace ReactiveForm

/-- **What a validation goes by**: the templates of its messages, and the tests of texts that are
made elsewhere.  Nothing that is said of a validation depends on what these tests are. -/
structure Criteria extends Messages where
  /-- Whether a text matches a pattern. -/
  matchesPattern : String → String → Bool := fun pattern s ↦
    (Pattern.ofText? pattern).all (·.occursIn s)
  isEmail : String → Bool := ReactiveForm.isEmail
  isUrl : String → Bool := ReactiveForm.isUrl

instance : Coe Criteria Messages := ⟨Criteria.toMessages⟩

/-! ## Rules -/

/-- The message of a validator of the host that does not let a value pass. -/
def customFailure? (m : Criteria) (d : Declaration) (value : Value) (scope : Record) (r : Rule) :
    Option String :=
  match r.validator with
  | none => none
  | some validator =>
    match validator value scope with
    | .passes => none
    | .fails => some (d.ruleMessage m r)
    | .failsWith message => some message
    | .breaksDown => some (d.expand m.customError "")

/-- The message of the first rule that fails, given which rules do, the host's own apart. -/
def ruleFailure? (m : Criteria) (d : Declaration) (fails : Rule → Bool) (value : Value)
    (scope : Record) : Option String :=
  d.rules.findSome? fun r ↦
    if r.kind = .custom then customFailure? m d value scope r
    else if fails r then some (d.ruleMessage m r)
    else none

/-- The message of the first validator of the host that does not let a value pass; a value that is
not there passes all. -/
def hostFailure? (m : Criteria) (d : Declaration) (value : Option Value) (scope : Record) :
    Option String :=
  match value with
  | none | some .null => none
  | some v => ruleFailure? m d (fun _ ↦ false) v scope

/-- Whether a text does not have the form a rule asks for. -/
def textFails (m : Criteria) (s : String) (r : Rule) : Bool :=
  match r.kind with
  | .minLength => r.count?.any (s.length < ·)
  | .maxLength => r.count?.any (· < s.length)
  | .pattern => r.patternSource?.any fun source ↦ !m.matchesPattern (Pattern.ofLiteral source) s
  | .email => !m.isEmail s
  | .url => !m.isUrl s
  | _ => false

/-- Whether a number is out of the bound of a rule. -/
def numberFails (x : Binary64) (r : Rule) : Bool :=
  match r.kind with
  | .min => r.number?.any x.lt
  | .max => r.number?.any x.gt
  | _ => false

/-! ## Kinds of fields -/

/-- The failure of a field of text, whose value is there if it is a text that is not empty. -/
def textFailure? (m : Criteria) (d : Declaration) (value : Option Value) (required : Bool)
    (scope : Record) : Option String :=
  match value with
  | none | some .null | some (.text "") => if required then some (d.requiredMessage m) else none
  | some (.text s) => ruleFailure? m d (textFails m s) (.text s) scope
  | some _ => some (d.expand m.text "")

/-- The failure of a numeric field, whose value is there unless it is a blank text, and is a number
or a text that looks like one. -/
def numericFailure? (m : Criteria) (d : Declaration) (value : Option Value) (required : Bool)
    (scope : Record) : Option String :=
  if Value.isReady value then
    let number := match value with
      | some (.text s) => numericText? s
      | v => v.bind Value.number?
    match number with
    | some x => ruleFailure? m d (numberFails x) (value.getD .null) scope
    | none => some (d.expand m.number "")
  else if required then some (d.requiredMessage m)
  else none

/-- Whether an enumerated field has a choice: some options, or one that is not the empty text. -/
def hasChoice (multiple : Bool) (value : Option Value) : Bool :=
  match value with
  | none | some .null => false
  | some (.list items) => !(multiple && items.isEmpty)
  | some (.text s) => !multiple && s != ""
  | some _ => !multiple

/-- The failure of a field whose value only has to be there, if even that. -/
def presenceFailure? (m : Criteria) (d : Declaration) (value : Option Value)
    (required present : Bool) (scope : Record) : Option String :=
  if required && !present then some (d.requiredMessage m) else hostFailure? m d value scope

/-- The number of files an upload holds; what is no list counts as one. -/
def fileCount : Option Value → Nat
  | none | some .null => 0
  | some (.list items) => items.length
  | some _ => 1

/-- The failure of an upload, of which only the number of files is checked.  A rule for the least
number takes the place of being required. -/
def uploadFailure? (m : Criteria) (d : Declaration) (value : Option Value) (required : Bool) :
    Option String :=
  let count := fileCount value
  let tooFew := match d.rule? .array with
    | some r => if r.count?.any (count < ·) then some (d.ruleMessage m r) else none
    | none => if required && count == 0 then some (d.requiredMessage m) else none
  tooFew.or ((d.maxItems.filter (· < count)).map fun bound ↦ d.expand m.maxItems (toString bound))

/-- **The failure of a single value**, if it has one; groups, lists and hidden fields have none. -/
def Declaration.failure? (m : Criteria) (d : Declaration) (value : Option Value) (required : Bool)
    (scope : Record) : Option String :=
  match d.kind with
  | .text => textFailure? m d value required scope
  | .numeric => numericFailure? m d value required scope
  | .boolean => presenceFailure? m d value required (value.any (· == .bool true)) scope
  | .enumerated => presenceFailure? m d value required (hasChoice d.multiple value) scope
  | .custom => presenceFailure? m d value required (!Value.isEmpty value) scope
  | .upload => uploadFailure? m d value required
  | .list | .group | .hidden => none

end ReactiveForm
