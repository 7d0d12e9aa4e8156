import ReactiveForm.Condition.Basic

/-!
# Reading conditions

The data forms of a condition are a record with `and` or `or` and a list, a record with `not` and a
condition, and a record with a text `field`.  The last one names its comparator in one of two ways:
by a text `operator` and an optional `value`, or by having the comparator's key as a field of its
own, with the operand; several such keys are joined by conjunction.

The first key that is there decides, in the order `and`, `or`, `not`, `field`.  A record that does
not have the form its key promises is unreadable as a whole, and so is anything that is no record.
-/

set_option autoImplicit false
namespace ReactiveForm

namespace Condition

/-- The comparisons a record makes of one field, one for each comparator whose key it has. -/
def comparisons (path : String) (fields : Record) : List Condition :=
  Comparator.all.filterMap fun c ↦ (fields.find? c.key).map fun operand ↦ .field path c operand

/-- The condition of a record that is no junction and no negation. -/
def ofLeaf (fields : Record) : Condition :=
  match fields.find? "field" with
  | some (.text path) =>
    match fields.find? "operator" with
    | some (.text operator) =>
      match Comparator.ofKey? operator with
      | some c => .field path c ((fields.find? "value").getD (.bool true))
      | none => .unreadable (.record fields)
    | _ =>
      match comparisons path fields with
      | [] => .unreadable (.record fields)
      | [leaf] => leaf
      | leaves => .all leaves
  | _ => .unreadable (.record fields)

mutual

/-- **The condition a value describes.** -/
def ofValue : Value → Condition
  | .record fields =>
    match _hand : Table.find? fields "and" with
    | some (.list items) => .all (ofItems items)
    | some _ => .unreadable (.record fields)
    | none =>
      match _hor : Table.find? fields "or" with
      | some (.list items) => .any (ofItems items)
      | some _ => .unreadable (.record fields)
      | none =>
        match _hnot : Table.find? fields "not" with
        | some v => .not (ofValue v)
        | none => ofLeaf fields
  | v => .unreadable v
termination_by v => sizeOf v
decreasing_by
  · have h := sizeOf_lt_of_find? _hand
    simp only [Value.list.sizeOf_spec] at h
    omega
  · have h := sizeOf_lt_of_find? _hor
    simp only [Value.list.sizeOf_spec] at h
    omega
  · exact sizeOf_lt_of_find? _hnot

/-- The conditions the items of a list describe. -/
def ofItems : List Value → List Condition
  | [] => []
  | v :: vs => ofValue v :: ofItems vs
termination_by vs => sizeOf vs
decreasing_by
  · simp only [List.cons.sizeOf_spec]; omega
  · simp only [List.cons.sizeOf_spec]; omega

end

end Condition

end ReactiveForm
