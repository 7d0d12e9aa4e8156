import ReactiveForm.Numeric.Shortest
import ReactiveForm.Table
import ReactiveForm.Text.Blank

/-!
# Values

What a form holds: nothing, a flag, a number, a text, a list, or a record of values by name.  A
number is written either as an integer or as a double, and the two are different values even where
they denote the same number.

Equality of values is equality of what they are made of (`Value.same`, written `==`), with the one
exception that the two zeros of the doubles are equal.  Where *numbers* are to be compared, and not
values, they are compared as decimals: that is `Value.decimal?`.

A missing value is not a value: wherever one may be missing, an `Option` says so, and `none` is
something else than `some .null`.
-/

set_option autoImplicit false
namespace ReactiveForm

/-- **A value.** -/
inductive Value where
  | null
  | bool (flag : Bool)
  | integer (n : Int)
  | float (x : Finite64)
  | text (s : String)
  | list (items : List Value)
  | record (fields : List (String × Value))
deriving Inhabited

/-- **A record**: values by name.  The values of a whole form are one. -/
abbrev Record := Table Value

namespace Value

/-! ## Equality -/

mutual

/-- **Equality of values**, part by part. -/
def same : Value → Value → Bool
  | .null, .null => true
  | .bool a, .bool b => a == b
  | .integer a, .integer b => a == b
  | .float a, .float b => a.same b
  | .text a, .text b => a == b
  | .list as, .list bs => sameItems as bs
  | .record as, .record bs => sameFields as bs
  | _, _ => false

/-- Equality of lists of values. -/
def sameItems : List Value → List Value → Bool
  | [], [] => true
  | a :: as, b :: bs => same a b && sameItems as bs
  | _, _ => false

/-- Equality of records, entry by entry. -/
def sameFields : List (String × Value) → List (String × Value) → Bool
  | [], [] => true
  | (n, a) :: as, (m, b) :: bs => n == m && same a b && sameFields as bs
  | _, _ => false

end

instance : BEq Value := ⟨same⟩

/-! ## Views -/

/-- The number as a double, if the value is one. -/
def number? : Value → Option Binary64
  | .integer n => some (.ofInt n)
  | .float x => some (.finite x)
  | _ => none

/-- The number as the decimal that writes it, if the value is one. -/
def decimal? : Value → Option Decimal
  | .integer n => some (.ofInt n)
  | .float x => some (x.toDecimal .toEven)
  | _ => none

/-- The count a value denotes: an integer that is not negative. -/
def count? : Value → Option Nat
  | .integer n => if 0 ≤ n then some n.toNat else none
  | _ => none

/-- Whether the value is a record. -/
def isRecord : Value → Bool
  | .record _ => true
  | _ => false

/-- Whether the value is nothing. -/
def isNull : Value → Bool
  | .null => true
  | _ => false

/-! ## Emptiness -/

/-- **Whether there is nothing to speak of**: no value, nothing, a blank text or an empty list. -/
def isEmpty : Option Value → Bool
  | none | some .null => true
  | some (.text s) => isBlankText s
  | some (.list items) => items.isEmpty
  | some _ => false

/-- Whether a value may enter a computation: it is there, not nothing and no blank text. -/
def isReady : Option Value → Bool
  | none | some .null => false
  | some (.text s) => !isBlankText s
  | some _ => true

end Value

/-- A value found in a record is smaller than the record. -/
theorem sizeOf_lt_of_find? {fields : Record} {name : String} {v : Value}
    (h : fields.find? name = some v) : sizeOf v < sizeOf (Value.record fields) := by
  have hmem : ∃ n, (n, v) ∈ fields := by
    induction fields with
    | nil => simp [Table.find?] at h
    | cons e rest ih =>
      obtain ⟨n, w⟩ := e
      simp only [Table.find?, List.lookup_cons] at h
      split at h
      · exact ⟨n, by simp_all⟩
      · obtain ⟨m, hm⟩ := ih h
        exact ⟨m, List.mem_cons_of_mem _ hm⟩
  obtain ⟨n, hn⟩ := hmem
  have hlt := List.sizeOf_lt_of_mem hn
  simp only [Prod.mk.sizeOf_spec, Value.record.sizeOf_spec] at hlt ⊢
  omega

/-- Equality of values that may be missing. -/
def sameValue : Option Value → Option Value → Bool
  | none, none => true
  | some a, some b => a == b
  | _, _ => false

end ReactiveForm
