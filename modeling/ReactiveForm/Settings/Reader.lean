import ReactiveForm.Settings.Basic
import ReactiveForm.Settings.Document

/-!
# Reading settings

A document gives settings if it has none but the known sections, and these none but the known
settings, each of the right kind.  A section that is a list gives its settings in a fixed order, and
may leave out the last ones.  A number may be given as an integer.

A file of settings is bounded in size, and so is its path; both bounds are in bytes, and they are
looked at before anything else.
-/

set_option autoImplicit false
namespace ReactiveForm

/-- **Why there are no settings.** -/
inductive SettingsError where
  /-- There is no such file. -/
  | unreadable
  /-- The text does not write settings. -/
  | malformed
  | invalid (fault : SettingsFault)
deriving DecidableEq

/-- The message of settings that are not valid. -/
def SettingsFault.fullMessage (f : SettingsFault) : String := "invalid config: " ++ f.message

namespace Scalar

/-- The number a setting gives. -/
def number? : Scalar → Option Binary64
  | .number x => some x
  | .integer n => if fitsWord n then some (.ofInt n) else none
  | _ => none

/-- The count a setting gives. -/
def count? : Scalar → Option Nat
  | .integer n => if 0 ≤ n ∧ fitsWord n then some n.toNat else none
  | _ => none

/-- The flag a setting gives. -/
def flag? : Scalar → Option Bool
  | .flag b => some b
  | _ => none

/-- The text a setting gives. -/
def text? : Scalar → Option String
  | .text s => some s
  | _ => none

end Scalar

/-! ## Sections -/

/-- **The settings a section gives**, by name, if it has no others than those named. -/
def Section.given? (names : List String) : Section → Option (List (String × Scalar))
  | .entries given => if given.all fun e ↦ names.contains e.1 then some given else none
  | .items listed => if listed.length ≤ names.length then some (names.zip listed) else none

/-- A setting by its name, or its default. -/
def settingOr {α : Type} (read : Scalar → Option α) (default : α) (given : List (String × Scalar))
    (name : String) : Option α :=
  match given.lookup name with
  | some s => read s
  | none => some default

/-- The messages that settings give. -/
def messagesOf? (given : List (String × Scalar)) : Option Messages := do
  let m : Messages := {}
  let template := fun (name default : String) ↦ settingOr Scalar.text? default given name
  let required ← template "required" m.required
  let minLength ← template "min_length" m.minLength
  let maxLength ← template "max_length" m.maxLength
  let min ← template "min" m.min
  let max ← template "max" m.max
  let pattern ← template "pattern" m.pattern
  let email ← template "email" m.email
  let url ← template "url" m.url
  let number ← template "number" m.number
  let text ← template "text" m.text
  let custom ← template "custom" m.custom
  let customError ← template "custom_error" m.customError
  let minItems ← template "min_items" m.minItems
  let maxItems ← template "max_items" m.maxItems
  let listType ← template "list_type" m.listType
  some { required, minLength, maxLength, min, max, pattern, email, url, number, text, custom,
         customError, minItems, maxItems, listType }

namespace Settings

/-- The sections of settings. -/
def sectionNames : List String := ["compute", "schema", "state", "messages"]

/-- What a section of a document gives, nothing if it is not there. -/
private def sectionOf? (document : Document) (name : String) (settings : List String) :
    Option (List (String × Scalar)) :=
  match document.lookup name with
  | some s => s.given? settings
  | none => some []

/-- **The settings a document gives**, whether or not they are valid. -/
def ofDocument? (document : Document) : Option Settings := do
  if !document.all fun e ↦ sectionNames.contains e.1 then none
  let computing ← sectionOf? document "compute" ["change_epsilon"]
  let shape ← sectionOf? document "schema" ["max_condition_depth"]
  let states ← sectionOf? document "state" ["global_disabled", "global_readonly"]
  let texts ← sectionOf? document "messages" (({} : Messages).entries.map (·.1))
  let changeEpsilon ← settingOr Scalar.number? defaultEpsilon computing "change_epsilon"
  let maxConditionDepth ←
    settingOr Scalar.count? Schema.defaultDepthLimit shape "max_condition_depth"
  let disabled ← settingOr Scalar.flag? false states "global_disabled"
  let readonly ← settingOr Scalar.flag? false states "global_readonly"
  let messages ← messagesOf? texts
  some { changeEpsilon, maxConditionDepth, flags := { disabled, readonly }, messages }

/-- **The settings a text writes**, if they are valid. -/
def ofText (text : String) : Except SettingsError Settings :=
  match (Document.ofText? text).bind ofDocument? with
  | none => .error .malformed
  | some s =>
    match s.fault? with
    | some fault => .error (.invalid fault)
    | none => .ok s

/-! ## Files -/

/-- The greatest size of a file of settings. -/
def fileBound : Nat := 1024 * 1024

/-- The greatest size of the path of a file. -/
def pathBound : Nat := 4096

/-- The greatest size of a part of a path. -/
def pathPartBound : Nat := 255

/-- The fault of a path, if it has one. -/
def pathFault? (path : String) : Option SettingsFault :=
  if pathBound < path.utf8ByteSize then some .pathTooLong
  else if (path.splitOn "/").any (pathPartBound < ·.utf8ByteSize) then some .pathComponentTooLong
  else none

/-- **The settings in a file**, given its path and its bytes, if it can be read. -/
def ofFile (path : String) (bytes : Option ByteArray) : Except SettingsError Settings :=
  match pathFault? path with
  | some fault => .error (.invalid fault)
  | none =>
    match bytes with
    | none => .error .unreadable
    | some bytes =>
      if fileBound < bytes.size then .error (.invalid .fileTooLarge)
      else
        match String.fromUTF8? bytes with
        | some text => ofText text
        | none => .error (.invalid .notUtf8)

end Settings

end ReactiveForm
