import ReactiveForm.Value.Path

/-!
# Writing at a path

A write puts a value at a path or clears the path.  A path of one segment, and one that the record
holds flat, is written in place.  Any other path is descended: missing fields become records on the
way, a value that is neither record nor list gives way to a record, and a row that does not exist
stops the write, for lists do not grow.  Clearing a row leaves nothing in its place; clearing a
field removes it.

Clearing descends as writing does, so it too may make records on the way.
-/

set_option autoImplicit false
namespace ReactiveForm

/-- Puts a value under a name, or removes the name. -/
def Record.put (values : Record) (name : String) : Option Value → Record
  | some v => Table.insert name v values
  | none => Table.erase values name

/-- A value that can be descended into: records and lists are, and anything else gives way to an
empty record. -/
def Value.container : Value → Value
  | .record fields => .record fields
  | .list items => .list items
  | _ => .record []

/-- **The value after a write along segments.** -/
def Value.writeAt (written : Option Value) : List String → Value → Value
  | [], v => v
  | [segment], .record fields => .record (Record.put fields segment written)
  | segment :: rest, .record fields =>
    let inner := ((Table.find? fields segment).getD (.record [])).container
    .record (Table.insert segment (inner.writeAt written rest) fields)
  | segment :: rest, .list items =>
    match indexOfText? segment with
    | none => .list items
    | some i =>
      match items[i]? with
      | none => .list items
      | some item =>
        if rest.isEmpty then .list (items.set i (written.getD .null))
        else .list (items.set i (item.container.writeAt written rest))
  | _, v => v

/-- The record a value is; a value that is none counts as an empty record. -/
def Value.fields : Value → Record
  | .record fields => fields
  | _ => []

/-- **The record after a write at a path.** -/
def Record.write (values : Record) (path : String) (written : Option Value) : Record :=
  if !isDotted path || Table.has values path then Record.put values path written
  else ((Value.record values).writeAt written (segments path)).fields

end ReactiveForm
