import ReactiveForm.Value.Write

/-!
# Proposed writes

The library changes nothing of the host's.  What it wants changed it proposes as writes, each with
a word on how the host should treat it: a write that comes from the library itself marks nothing as
edited or visited, and asks for no validation.
-/

set_option autoImplicit false
namespace ReactiveForm

/-- How a host should treat a write. -/
structure WriteOptions where
  /-- The field counts as edited. -/
  marksDirty : Bool
  /-- The field counts as visited. -/
  marksTouched : Bool
  /-- The field is to be validated again. -/
  validates : Bool
deriving DecidableEq

namespace WriteOptions

/-- A write by the user. -/
def user : WriteOptions := ⟨true, true, true⟩

/-- A write by the library. -/
def system : WriteOptions := ⟨false, false, false⟩

end WriteOptions

/-- **A proposed write**: a value for a path, or none to clear it. -/
structure Write where
  path : String
  value : Option Value
  options : WriteOptions := .system

/-- The values after a proposed write. -/
def Record.apply (values : Record) (w : Write) : Record := values.write w.path w.value

/-- **The values after proposed writes**, one after the other. -/
def Record.applyAll (values : Record) (ws : List Write) : Record := ws.foldl Record.apply values

end ReactiveForm
