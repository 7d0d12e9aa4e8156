/-!
# Tables

Whatever is kept by name (the values of a form, the states of its fields, the messages of a
validation) is a `Table`: a list of names with what belongs to them, in the order of the names and
each name once.  Names are compared character by character, by code point, which is also the order
of their bytes.

A set of names is a list in the same order, `Names`.

The order is kept by the operations and is no part of the type, so that a table can nest in the
values it holds.  Looking up and erasing do not rely on it, and `insert` puts a name before anything
it could be hidden by; so the laws that say what is found after a change hold of any list.
-/

set_option autoImplicit false
namespace ReactiveForm

/-- **A table**: what belongs to each of some names, in their order. -/
abbrev Table (α : Type) := List (String × α)

namespace Table

variable {α β : Type}

/-- What belongs to a name. -/
def find? (t : Table α) (name : String) : Option α := t.lookup name

/-- Whether the name is there. -/
def has (t : Table α) (name : String) : Bool := (t.find? name).isSome

/-- The names, in order. -/
def names (t : Table α) : List String := t.map (·.1)

/-- Puts something under a name, in place of what was there. -/
def insert (name : String) (a : α) : Table α → Table α
  | [] => [(name, a)]
  | (other, b) :: rest =>
    if name = other then (name, a) :: rest
    else if name < other then (name, a) :: (other, b) :: rest
    else (other, b) :: insert name a rest

/-- Puts something under a name unless the name is taken. -/
def insertNew (t : Table α) (name : String) (a : α) : Table α :=
  if t.has name then t else t.insert name a

/-- Removes a name. -/
def erase (t : Table α) (name : String) : Table α := t.filter fun e ↦ e.1 != name

/-- Puts all entries of `upper` into `lower`. -/
def overlay (lower upper : Table α) : Table α :=
  upper.foldl (fun t e ↦ t.insert e.1 e.2) lower

/-- The table of a list of entries, of which the last one under a name counts. -/
def ofList (entries : List (String × α)) : Table α := overlay [] entries

/-- The table of a list of entries, of which the first one under a name counts. -/
def ofFirst (entries : List (String × α)) : Table α :=
  entries.foldl (fun t e ↦ t.insertNew e.1 e.2) []

end Table

/-! ## Sets of names -/

/-- A set of names, in order. -/
abbrev Names := List String

namespace Names

/-- Adds a name. -/
def insert (name : String) : Names → Names
  | [] => [name]
  | other :: rest =>
    if name = other then other :: rest
    else if name < other then name :: other :: rest
    else other :: insert name rest

/-- Adds all names of a list. -/
def insertAll (set : Names) (names : List String) : Names :=
  names.foldl (fun set name ↦ Names.insert name set) set

/-- The set of the names of a list. -/
def ofList (names : List String) : Names := insertAll [] names

end Names

end ReactiveForm
