import ReactiveForm.Numeric.Numeral
import ReactiveForm.Text.Word
import ReactiveForm.Value.Basic

/-!
# Paths

A value inside a record is named by a path: names and row numbers with points between them.  A name
may contain points itself, and a record may hold such a name flat.  Looking up a path therefore
tries the whole path as a name first, and only then descends segment by segment, through records by
name and through lists by row number.
-/

set_option autoImplicit false
namespace ReactiveForm

/-- **The segments of a path.** -/
def segments (path : String) : List String := (partsAt '.' path.toList).map String.ofList

/-- Whether a path has more than one segment. -/
def isDotted (path : String) : Bool := path.toList.contains '.'

/-- One step down: a field of a record, a row of a list. -/
def Value.child? : Value → String → Option Value
  | .record fields, segment => Table.find? fields segment
  | .list items, segment => (indexOfText? segment).bind fun i ↦ items[i]?
  | _, _ => none

/-- The value reached by descending along segments. -/
def Value.descend? : Value → List String → Option Value
  | v, [] => some v
  | v, segment :: rest => (v.child? segment).bind fun w ↦ w.descend? rest

/-- **The value at a path.**  A name that is the whole path wins over descending. -/
def Record.at? (values : Record) (path : String) : Option Value :=
  match Table.find? values path with
  | some v => some v
  | none => (Value.record values).descend? (segments path)

end ReactiveForm
