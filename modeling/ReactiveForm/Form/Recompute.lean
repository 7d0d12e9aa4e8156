import ReactiveForm.Form.State
import ReactiveForm.Form.Write

/-!
# Reacting to a change

Given the values before and after a change, `Schema.recompute` proposes what has to change with
them.  Computed fields are evaluated in their order, each write being there for the next field to
read, and then the computed cells of all lists, row by row.  After that, fields that want to be
cleared are cleared if they are downstream of anything that has changed.  A field that was changed
itself is never cleared, and none is cleared twice.

Clearing may change what was computed, so fields are computed again after each round of clearing,
and what this changes may clear more.  A round that clears nothing is the last one; every other
round uses up fields that want to be cleared, so the rounds end.

All this happens on a copy of the values.  The states of the fields are those among the values that
come out of it.
-/

set_option autoImplicit false
namespace ReactiveForm

/-- Values that are being worked on, and the writes that led to them. -/
structure Progress where
  values : Record
  writes : List Write

/-- A write more, if there is one. -/
def Progress.extend (p : Progress) : Option Write → Progress
  | some w => ⟨p.values.apply w, p.writes ++ [w]⟩
  | none => p

/-! ## Computing -/

/-- The write of what a field computes in a scope, if that differs enough from its current value. -/
def Declaration.computedWrite? (d : Declaration) (epsilon : Binary64) (path : String)
    (scope : Record) (current : Option Value) : Option Write :=
  let value := d.computation.bind (·.evaluate scope)
  if changesMaterially current value epsilon then some ⟨path, value, .system⟩ else none

/-- The row of a list by its number, if it is a record. -/
def Record.rowAt? (values : Record) (list : String) (index : Nat) : Option Record :=
  match values.at? list with
  | some (.list rows) =>
    match rows[index]? with
    | some (.record row) => some row
    | _ => none
  | _ => none

/-- The number of rows of a list. -/
def Record.rowCount (values : Record) (list : String) : Nat :=
  match values.at? list with
  | some (.list rows) => rows.length
  | _ => 0

/-- The path of a cell. -/
def cellPath (list : String) (index : Nat) (column : String) : String :=
  list ++ "." ++ toString index ++ "." ++ column

/-- Computes some cells of a row, up to where the row is no record. -/
def computeCells (epsilon : Binary64) (list : String) (index : Nat) :
    List Field → Progress → Progress
  | [], p => p
  | c :: cs, p =>
    match p.values.rowAt? list index with
    | none => p
    | some row =>
      computeCells epsilon list index cs (p.extend (c.computedWrite? epsilon
        (cellPath list index c.name) (p.values.overlay row) (row.at? c.name)))

namespace Schema

/-- The cells of a list that have names of computed fields, in the order of computation. -/
def computedCells (s : Schema) (list : Field) : List Field :=
  s.computeOrder.filterMap fun name ↦ (cellsOf list.columns).find? fun c ↦ c.name == name

/-- Computes the cells of a list, row by row. -/
def computeRows (s : Schema) (epsilon : Binary64) (p : Progress) (list : Field) : Progress :=
  let cells := s.computedCells list
  if cells.isEmpty then p
  else (List.range (p.values.rowCount list.name)).foldl
    (fun p index ↦ computeCells epsilon list.name index cells p) p

/-- Computes the field with a name. -/
def computeField (s : Schema) (epsilon : Binary64) (p : Progress) (name : String) : Progress :=
  match s.field? name with
  | some f => p.extend (f.computedWrite? epsilon name p.values (p.values.at? f.name))
  | none => p

/-- **Computes everything once**: the fields of the form in their order, then the cells of its
lists. -/
def computePass (s : Schema) (epsilon : Binary64) (values : Record) : Progress :=
  let rowNames := s.rowNames
  let p := (s.computeOrder.filter fun name ↦ !rowNames.contains name).foldl (s.computeField epsilon)
    ⟨values, []⟩
  (outerListsOf s.fields).foldl (s.computeRows epsilon) p

/-! ## Clearing -/

/-- The names of fields that want to be cleared when something they react to changes. -/
def clearable (s : Schema) : List String :=
  (s.allFields.map (·.name)).filter fun name ↦ (s.field? name).any (·.clearOnChange)

/-- The names of fields that a change of the sources clears, unless they are kept or empty. -/
def clearTargets (s : Schema) (sources kept : List String) : List String :=
  let graph := s.dependents
  let clearable := s.clearable
  (Names.ofList (sources.flatMap graph.downstream)).filter fun name ↦
    clearable.contains name && !kept.contains name

/-- The write that clears a field, unless it is empty. -/
def clearingWrite? (s : Schema) (values : Record) (name : String) : Option Write :=
  if Value.isEmpty (values.at? name) then none
  else some ⟨name, if (s.field? name).any (·.multiple) then some (.list []) else none, .system⟩

/-- Clears some fields, one after the other. -/
def clearEach (s : Schema) : List String → Progress → Progress
  | [], p => p
  | name :: names, p => s.clearEach names (p.extend (s.clearingWrite? p.values name))

/-- **A round of clearing.** -/
def clearRound (s : Schema) (sources kept : List String) (values : Record) : Progress :=
  s.clearEach (s.clearTargets sources kept) ⟨values, []⟩

theorem path_mem_of_mem_clearEach {s : Schema} {names : List String} {p : Progress} {w : Write}
    (h : w ∈ (s.clearEach names p).writes) : w ∈ p.writes ∨ w.path ∈ names := by
  induction names generalizing p with
  | nil => exact .inl h
  | cons name names ih =>
    rcases ih h with h | h
    · unfold clearingWrite? at h
      split at h
      · exact .inl h
      · simp only [Progress.extend, List.mem_append, List.mem_singleton] at h
        rcases h with h | rfl
        · exact .inl h
        · exact .inr (List.mem_cons_self ..)
    · exact .inr (List.mem_cons_of_mem _ h)

theorem path_mem_of_mem_clearRound {s : Schema} {sources kept : List String} {values : Record}
    {w : Write} (h : w ∈ (s.clearRound sources kept values).writes) :
    w.path ∈ s.clearable ∧ w.path ∉ kept := by
  rcases path_mem_of_mem_clearEach h with h | h
  · simp at h
  · simpa [clearTargets] using (List.mem_filter.1 h).2

end Schema

/-! ## Settling -/

/-- A list of writes with one more, which takes the place of an earlier one at the same path. -/
def mergeWrite (w : Write) : List Write → List Write
  | [] => [w]
  | v :: vs => if v.path = w.path then w :: vs else v :: mergeWrite w vs

/-- A list of writes with more of them, one at each path. -/
def mergeWrites (ws more : List Write) : List Write := more.foldl (fun ws w ↦ mergeWrite w ws) ws

/-- The values that are settling down, with the writes that were computed and those that clear. -/
structure Settling where
  values : Record
  computed : List Write
  cleared : List Write

namespace Schema

/-- **Rounds of clearing and computing** until nothing is left to clear. -/
def settle (s : Schema) (epsilon : Binary64) (sources kept : List String) (st : Settling) :
    Settling :=
  let round := s.clearRound sources kept st.values
  if _h : round.writes = [] then st
  else
    let pass := s.computePass epsilon round.values
    s.settle epsilon ((round.writes ++ pass.writes).map (·.path))
      (kept ++ round.writes.map (·.path))
      ⟨pass.values, mergeWrites st.computed pass.writes, st.cleared ++ round.writes⟩
termination_by (s.clearable.filter fun name ↦ !kept.contains name).length
decreasing_by
  obtain ⟨w, hw⟩ := List.exists_mem_of_ne_nil _ _h
  have hpath := path_mem_of_mem_clearRound hw
  exact length_filter_notMem_lt (fun _ hb ↦ List.mem_append_left _ hb) hpath.1 hpath.2
    (List.mem_append_right _ (List.mem_map.2 ⟨w, hw, rfl⟩))

/-- **The names and watched paths whose values have changed.**  Without values from before,
everything that is there has. -/
def changed (s : Schema) (previous : Option Record) (next : Record) : Names :=
  match previous with
  | none => Names.ofList (Table.names next)
  | some previous =>
    Names.ofList
      (((Table.names previous ++ Table.names next).filter fun name ↦
          !sameValue (previous.find? name) (next.find? name)) ++
        (Table.names s.dependents).filter fun path ↦
          !sameValue (previous.at? path) (next.at? path))

end Schema

/-- **What follows from a change.** -/
structure Update where
  /-- The states of the fields among the settled values. -/
  states : Table FieldState
  computed : List Write
  cleared : List Write

/-- All proposed writes: those that were computed, then those that clear. -/
def Update.writes (u : Update) : List Write := u.computed ++ u.cleared

/-- **What follows from a change** of the values to `next`. -/
def Schema.recompute (s : Schema) (flags : FormFlags) (epsilon : Binary64)
    (previous : Option Record) (next : Record) : Update :=
  let changed := s.changed previous next
  let pass := s.computePass epsilon next
  let settled := s.settle epsilon (changed ++ pass.writes.map (·.path)) changed
    ⟨pass.values, mergeWrites [] pass.writes, []⟩
  ⟨s.states settled.values flags, settled.computed, settled.cleared⟩

end ReactiveForm
