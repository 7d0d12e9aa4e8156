import ReactiveForm.Form.State
import ReactiveForm.Settings.Messages

/-!
# Settings

What a host can set: the tolerance of computed numbers, the greatest depth of conditions, the flags
of the form as a whole, and the templates of its messages.  Whatever is not set has a default.

Settings are checked in a fixed order, and the first fault is reported.
-/

set_option autoImplicit false
namespace ReactiveForm

/-- **Settings.** -/
structure Settings where
  /-- Computed numbers closer than this to what is there are left alone. -/
  changeEpsilon : Binary64 := defaultEpsilon
  /-- The greatest depth of conditions. -/
  maxConditionDepth : Nat := Schema.defaultDepthLimit
  flags : FormFlags := {}
  messages : Messages := {}

namespace Settings

/-- The greatest depth of conditions that can be set. -/
def depthBound : Nat := 256

/-- The greatest size of a template, in bytes. -/
def templateBound : Nat := 1024

/-- Whether all settings have their defaults. -/
def isDefault (s : Settings) : Bool :=
  s.changeEpsilon.same defaultEpsilon && s.maxConditionDepth == Schema.defaultDepthLimit &&
    s.flags == {} && s.messages == {}

end Settings

/-- **What is wrong with settings**, or with the file they are read from. -/
inductive SettingsFault where
  | pathTooLong
  | pathComponentTooLong
  | fileTooLarge
  | notUtf8
  | epsilon
  | conditionDepth
  /-- The template of the given name is blank. -/
  | blankTemplate (name : String)
  /-- The template of the given name is too large. -/
  | templateTooLong (name : String)
deriving DecidableEq

/-- The wording of a fault. -/
def SettingsFault.message : SettingsFault → String
  | .pathTooLong => "config path exceeds max length"
  | .pathComponentTooLong => "config path component too long"
  | .fileTooLarge => "config file exceeds size limit"
  | .notUtf8 => "config file must be utf-8"
  | .epsilon => "compute.change_epsilon must be finite and non-negative"
  | .conditionDepth => "schema.max_condition_depth must be between 1 and 256"
  | .blankTemplate name => "messages." ++ name ++ " must be non-empty"
  | .templateTooLong name => "messages." ++ name ++ " exceeds max length"

/-- The fault of a template, if it has one. -/
def templateFault? (name template : String) : Option SettingsFault :=
  if isBlankText template then some (.blankTemplate name)
  else if Settings.templateBound < template.utf8ByteSize then some (.templateTooLong name)
  else none

/-- **The first fault of settings**, if there is one. -/
def Settings.fault? (s : Settings) : Option SettingsFault :=
  if !s.changeEpsilon.isFinite || s.changeEpsilon.lt (.zero false) then some .epsilon
  else if s.maxConditionDepth = 0 ∨ Settings.depthBound < s.maxConditionDepth then
    some .conditionDepth
  else s.messages.entries.findSome? fun e ↦ templateFault? e.1 e.2

end ReactiveForm
