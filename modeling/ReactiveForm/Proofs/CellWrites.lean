import Mathlib
import ReactiveForm.Proofs.ReadBack
import ReactiveForm.Proofs.Steps

/-!
# Where the write of a cell goes

A cell is read in two steps: its list is looked up among the values, and its column in the row.  It
is written in one, at a path that leads through both.  The two agree where everything on that path
is found by descending; but they part where a dotted name is held flat.  A list that is held flat is
read as a whole name, while the path of its cell descends beside it; the same goes for a column that
its row holds flat; and a value held flat under the path of the cell takes the write to itself.

`Record.cellAt?_write_cellPath_iff` makes this exact: a cell has the value that was written to it if
it had it before, or if nothing on its way is held flat and the row takes the write
(`Record.CellTakes`).  `Schema.computedCell_reads_back_iff` says it of every write that is proposed
while the rows of a list are computed.  Without dotted names the write always lands
(`Record.cellTakes_of_plain`).
-/

set_option autoImplicit false
namespace ReactiveForm

namespace Record

variable {values row : Record} {list column : String} {index : Nat} {x : Option Value}

/-- **The value of a cell**, read in the row of its list. -/
def cellAt? (values : Record) (list : String) (index : Nat) (column : String) : Option Value :=
  (values.rowAt? list index).bind (·.at? column)

/-- **A cell takes a write**: neither its list nor its own path is held flat, nor its column in the
row, and the row takes the write. -/
structure CellTakes (values : Record) (list : String) (index : Nat) (column : String)
    (row : Record) (x : Option Value) : Prop where
  list_not_flat : ¬values.HoldsFlat list
  cell_not_flat : ¬values.HoldsFlat (cellPath list index column)
  column_not_flat : ¬row.HoldsFlat column
  takes : row.Takes column x

theorem cellPath_ne_list (list : String) (index : Nat) (column : String) :
    cellPath list index column ≠ list := by
  intro heq
  have hlength := congrArg (fun path ↦ (segments path).length) heq
  simp only [segments_cellPath_eq_append, List.length_append, List.length_cons] at hlength
  omega

/-- What is held flat is not changed under a plain name. -/
theorem at?_put_of_holdsFlat {path name : String} (h : values.HoldsFlat path)
    (hname : isDotted name = false) (x : Option Value) :
    (values.put name x).at? path = values.at? path := by
  have hne : path ≠ name := by
    rintro rfl
    rw [h.1] at hname
    cases hname
  obtain ⟨v, hv⟩ := Option.isSome_iff_exists.1 h.2
  rw [at?, at?, find?_put_of_ne hne, hv]

/-! ## Writes that miss the row -/

/-- A list is not changed through the path of a cell if one of the two is held flat. -/
theorem at?_write_cellPath_of_holdsFlat
    (h : values.HoldsFlat list ∨ values.HoldsFlat (cellPath list index column)) :
    (values.write (cellPath list index column) x).at? list = values.at? list := by
  have hne := (cellPath_ne_list list index column).symm
  by_cases hcell : values.HoldsFlat (cellPath list index column)
  · rw [write_of_holdsFlat hcell]
    refine at?_put_of_ne hne (fun hhead ↦ ?_) x
    have hplain := isDotted_of_mem_segments (List.mem_of_head? hhead)
    rw [isDotted_cellPath] at hplain
    cases hplain
  · obtain ⟨name, rest, -, hname, heq⟩ := exists_write_eq_put hcell x
    rw [heq, at?_put_of_holdsFlat (h.resolve_right hcell) hname]

theorem rowAt?_congr_at? {other : Record} (h : other.at? list = values.at? list) (index : Nat) :
    other.rowAt? list index = values.rowAt? list index := by
  rw [rowAt?, rowAt?, h]

/-! ## Writes that reach the row -/

/-- **A write to a cell goes on in its row**, if neither the list nor the path is held flat. -/
theorem WellFormed.rowAt?_write_cellPath_self (hvalues : values.WellFormed)
    (hlist : ¬values.HoldsFlat list) (hcell : ¬values.HoldsFlat (cellPath list index column))
    (hrow : values.rowAt? list index = some row) (x : Option Value) :
    (values.write (cellPath list index column) x).rowAt? list index =
      some ((Value.record row).writeAt x (segments column)).fields := by
  obtain ⟨rows, hrows, hindex⟩ := rowAt?_eq_some_iff_at?.1 hrow
  have hlt : index < UInt64.size :=
    Nat.lt_trans (List.getElem?_eq_some_iff.1 hindex).1
      (Value.wellFormed_list_iff.1 (hvalues.at? hrows)).1
  have hlist' : ¬(values.write (cellPath list index column) x).HoldsFlat list :=
    mt (holdsFlat_write_iff (cellPath_ne_list list index column).symm x).1 hlist
  rw [at?_eq_descend? hlist] at hrows
  have hafter : (values.write (cellPath list index column) x).at? list =
      some ((Value.list rows).writeAt x (toString index :: segments column)) := by
    rw [at?_eq_descend? hlist', record_write hcell, segments_cellPath_eq_append]
    exact Value.descend?_writeAt_append hrows (List.cons_ne_nil _ _) x
  rw [Value.writeAt_list, Value.modifyRow, indexOfText?_toString hlt] at hafter
  refine rowAt?_eq_some_iff_at?.2 ⟨_, hafter, ?_⟩
  simp only [List.getElem?_modify, hindex, Value.stepInto_of_ne_nil (segments_ne_nil column),
    Option.map_eq_map, Option.map_some, if_true, Option.getD_some, Value.container]
  rw [← Value.fields_writeAt]

/-- **What is read in a row** that is written along the segments of a column. -/
theorem at?_fields_writeAt_iff (hrow : row.WellFormed) :
    ((Value.record row).writeAt x (segments column)).fields.at? column = x ↔
      row.at? column = x ∨ ¬row.HoldsFlat column ∧ row.Takes column x := by
  by_cases hflat : row.HoldsFlat column
  · -- the column is read as a whole name, beside which the write descends
    have hsame : ((Value.record row).writeAt x (segments column)).fields.at? column =
        row.at? column := by
      cases hsegments : segments column with
      | nil => exact absurd hsegments (segments_ne_nil column)
      | cons name rest =>
        rw [Value.writeAt_record]
        exact at?_put_of_holdsFlat hflat
          (isDotted_of_mem_segments (hsegments ▸ List.mem_cons_self)) _
    rw [hsame]
    exact ⟨.inl, fun h ↦ h.resolve_right fun h ↦ h.1 hflat⟩
  · rw [← write_eq hflat, at?_write_self_iff hrow hflat]
    exact ⟨fun htakes ↦ .inr ⟨hflat, htakes⟩, fun h ↦ h.elim (takes_of_at?_eq hflat) And.right⟩

/-- **When a cell has the value that was written to it**: if it had it before, or if it takes the
write. -/
theorem cellAt?_write_cellPath_iff (hvalues : values.WellFormed)
    (hrow : values.rowAt? list index = some row) :
    (values.write (cellPath list index column) x).cellAt? list index column = x ↔
      row.at? column = x ∨ values.CellTakes list index column row x := by
  by_cases hmissed : values.HoldsFlat list ∨ values.HoldsFlat (cellPath list index column)
  · rw [cellAt?, rowAt?_congr_at? (at?_write_cellPath_of_holdsFlat hmissed), hrow, Option.bind_some]
    refine ⟨.inl, fun h ↦ h.resolve_right fun htakes ↦ ?_⟩
    exact hmissed.elim htakes.list_not_flat htakes.cell_not_flat
  · obtain ⟨hlist, hcell⟩ := not_or.1 hmissed
    rw [cellAt?, hvalues.rowAt?_write_cellPath_self hlist hcell hrow, Option.bind_some,
      at?_fields_writeAt_iff (hvalues.rowAt? hrow)]
    refine or_congr_right ⟨fun ⟨hflat, htakes⟩ ↦ ⟨hlist, hcell, hflat, htakes⟩, fun htakes ↦ ?_⟩
    exact ⟨htakes.column_not_flat, htakes.takes⟩

/-- **Without dotted names a cell takes every write.** -/
theorem cellTakes_of_plain (hvalues : values.Plain) (hcolumn : isDotted column = false)
    (list : String) (index : Nat) (row : Record) (x : Option Value) :
    values.CellTakes list index column row x where
  list_not_flat := hvalues.not_holdsFlat list
  cell_not_flat := hvalues.not_holdsFlat _
  column_not_flat h := by
    rw [h.1] at hcolumn
    cases hcolumn
  takes := takes_of_not_isDotted hcolumn row x

end Record

namespace Schema

variable {s : Schema} {epsilon : Binary64} {p : Progress} {list : Field} {w : Write}

/-- **The write of a cell** that is proposed among some values. -/
structure CellWrite (s : Schema) (epsilon : Binary64) (list : Field) (values : Record)
    (index : Nat) (column : Field) (row : Record) (w : Write) : Prop where
  computed : column ∈ s.computedCells list
  row_eq : values.rowAt? list.name index = some row
  path_eq : w.path = cellPath list.name index column.name
  value_eq : w.value = column.computation.bind (·.evaluate (values.overlay row))
  changes : changesMaterially (row.at? column.name) w.value epsilon = true

theorem CellWrite.of_computedWrite? {values row : Record} {index : Nat} {column : Field}
    (hcolumn : column ∈ s.computedCells list) (hrow : values.rowAt? list.name index = some row)
    (hw : column.computedWrite? epsilon (cellPath list.name index column.name)
      (values.overlay row) (row.at? column.name) = some w) :
    s.CellWrite epsilon list values index column row w := by
  have heq := Declaration.computedWrite?_eq_some hw
  refine ⟨hcolumn, hrow, by rw [heq], by rw [heq], ?_⟩
  rw [heq]
  by_contra hsame
  rw [Bool.not_eq_true] at hsame
  rw [Declaration.computedWrite?, hsame] at hw
  cases hw

/-- Computing the rows of a list adds writes to those before, each that of a cell among the values
that the others lead to. -/
theorem exists_writes_computeRows (s : Schema) (epsilon : Binary64) (p : Progress) (list : Field) :
    ∃ ws, (s.computeRows epsilon p list).writes = p.writes ++ ws ∧
      (s.computeRows epsilon p list).values = p.values.applyAll ws ∧
      ∀ before w, before ++ [w] <+: ws → ∃ index column row,
        s.CellWrite epsilon list (p.values.applyAll before) index column row w := by
  refine computeRows_induction (P := fun q ↦ ∃ ws, q.writes = p.writes ++ ws ∧
    q.values = p.values.applyAll ws ∧ ∀ before w, before ++ [w] <+: ws →
      ∃ index column row, s.CellWrite epsilon list (p.values.applyAll before) index column row w)
    ⟨[], (List.append_nil _).symm, rfl, fun before w h ↦ by simp at h⟩
    fun q index c row v ⟨ws, hws, hvalues, hcells⟩ hc hrow hv ↦ ⟨ws ++ [v], ?_, ?_, ?_⟩
  · rw [Progress.extend, hws, List.append_assoc]
  · rw [Progress.extend, hvalues, Record.applyAll_append]
    rfl
  · intro before w h
    rcases List.prefix_concat_iff.1 h with h | h
    · obtain ⟨rfl, hw⟩ := List.append_inj' h rfl
      obtain rfl := List.singleton_inj.1 hw
      rw [hvalues] at hrow hv
      exact ⟨index, c, row, .of_computedWrite? hc hrow hv⟩
    · exact hcells before w h

/-- **Every write to the rows of a list is that of a cell**, among the values that those before it
lead to. -/
theorem cellWrite_of_computeRows {before : List Write}
    (h : p.writes ++ before ++ [w] <+: (s.computeRows epsilon p list).writes) :
    ∃ index column row,
      s.CellWrite epsilon list (p.values.applyAll before) index column row w := by
  obtain ⟨ws, hws, -, hcells⟩ := s.exists_writes_computeRows epsilon p list
  rw [hws, List.append_assoc, List.prefix_append_right_inj] at h
  exact hcells before w h

/-- What is written to a cell is a value as a host could hold it. -/
theorem CellWrite.wellFormed {values row : Record} {index : Nat} {column : Field}
    (h : s.CellWrite epsilon list values index column row w) (hvalues : values.WellFormed)
    {v : Value} (hv : w.value = some v) : v.WellFormed := by
  rw [h.value_eq] at hv
  obtain ⟨c, -, hv⟩ := Option.bind_eq_some_iff.1 hv
  exact c.evaluate_wellFormed (hvalues.overlay (hvalues.rowAt? h.row_eq)) hv

/-- The values are as a host could hold them all along. -/
theorem wellFormed_of_computeRows (hp : p.values.WellFormed) {before : List Write}
    (h : p.writes ++ before <+: (s.computeRows epsilon p list).writes) :
    (p.values.applyAll before).WellFormed := by
  induction before using List.reverseRecOn with
  | nil => exact hp
  | append_singleton before v ih =>
    rw [← List.append_assoc] at h
    obtain ⟨index, column, row, hcell⟩ := cellWrite_of_computeRows h
    have hbefore := ih ((List.prefix_append _ _).trans h)
    rw [Record.applyAll_append]
    exact hbefore.apply fun _ ↦ hcell.wellFormed hbefore

/-- **When computed cells read back.**  A write to the rows of a list is that of a cell, with the
value that is computed for it; and once it has been made, the cell has this value exactly if it had
it before or takes the write. -/
theorem computedCell_reads_back_iff (hp : p.values.WellFormed) {before : List Write}
    (h : p.writes ++ before ++ [w] <+: (s.computeRows epsilon p list).writes) :
    ∃ index column row,
      s.CellWrite epsilon list (p.values.applyAll before) index column row w ∧
      (((p.values.applyAll before).apply w).cellAt? list.name index column.name = w.value ↔
        row.at? column.name = w.value ∨
          (p.values.applyAll before).CellTakes list.name index column.name row w.value) := by
  obtain ⟨index, column, row, hcell⟩ := cellWrite_of_computeRows h
  have hvalues := wellFormed_of_computeRows hp ((List.prefix_append _ _).trans h)
  refine ⟨index, column, row, hcell, ?_⟩
  rw [Record.apply, hcell.path_eq]
  exact Record.cellAt?_write_cellPath_iff hvalues hcell.row_eq

/-! ## A trip and its legs -/

/-- What a leg of a trip costs. -/
def legCost : Field where
  name := "cost"
  component := "number"
  computation := some { source := "km * 2" }

/-- The legs of a trip, of which there is one to begin with. -/
def legs (name : String) : Field where
  name := name
  component := "list"
  defaultValue := some (.list [.record [("km", .integer 3)]])
  columns := [{ name := "km", component := "number" }, legCost]

/-- A trip, with its legs under some name. -/
def tripSchema (name : String) : Schema where
  fields := [legs name]
  computeOrder := ["cost"]

/-- The values that a trip starts with. -/
def tripValues (name : String) : Record := [(name, .list [.record [("km", .integer 3)]])]

theorem at?_tripValues (name : String) :
    (tripValues name).at? name = some (.list [.record [("km", .integer 3)]]) := by
  simp [tripValues, Record.at?, Table.find?]

theorem evaluate_legCost {scope : Record} (h : scope.at? "km" = some (.integer 3)) :
    legCost.computation.bind (·.evaluate scope) = some (.integer 6) :=
  Computation.evaluate_of_inputs (by decide +kernel) (by decide +kernel) h

/-- What is computed for a trip is the cost of its leg. -/
theorem writes_computeRows_trip (name : String) :
    ((tripSchema name).computeRows defaultEpsilon ⟨tripValues name, []⟩ (legs name)).writes =
      [⟨cellPath name 0 "cost", some (.integer 6), .system⟩] := by
  have hrow : (tripValues name).rowAt? name 0 = some [("km", .integer 3)] := by
    rw [Record.rowAt?, at?_tripValues]
    rfl
  have hcount : (tripValues name).rowCount (legs name).name = 1 := by
    rw [Record.rowCount]
    simp only [legs, at?_tripValues, List.length_singleton]
  have hcells : (tripSchema name).computedCells (legs name) = [legCost] := rfl
  have hkm : Record.at? ((tripValues name).overlay [("km", .integer 3)]) "km" =
      some (.integer 3) := by
    rw [Record.at?_overlay _ (by decide)]
    rfl
  simp only [computeRows, hcells, hcount, List.isEmpty_cons, Bool.false_eq_true, if_false,
    List.range_one, List.foldl_cons, List.foldl_nil]
  simp only [legs, computeCells, hrow, Declaration.computedWrite?, evaluate_legCost hkm]
  rfl

/-- The cost of a leg can be read in its row. -/
theorem tripSchema_cost_reads_back :
    ((tripValues "legs").apply ⟨"legs.0.cost", some (.integer 6), .system⟩).cellAt?
      "legs" 0 "cost" = some (.integer 6) := by
  have hleg : (Value.record [("km", .integer 3)]).WellFormed :=
    .record (by decide) (by simp [Value.WellFormed.integer])
  have hlegs : (Value.list [.record [("km", .integer 3)]]).WellFormed :=
    .list (by decide) (by simpa using hleg)
  let p : Progress := ⟨tripValues "legs", []⟩
  have hvalues : p.values.WellFormed := .record (by decide) (by simpa [p, tripValues] using hlegs)
  have hplain : p.values.Plain := by decide +kernel
  have hwrites : p.writes ++ [] ++ [⟨"legs.0.cost", some (.integer 6), .system⟩] <+:
      ((tripSchema "legs").computeRows defaultEpsilon p (legs "legs")).writes := by
    rw [writes_computeRows_trip]
    exact List.prefix_rfl
  obtain ⟨index, column, row, hcell, hreads⟩ := computedCell_reads_back_iff hvalues hwrites
  obtain rfl : column = legCost := List.mem_singleton.1 hcell.computed
  obtain rfl : index = 0 := by
    obtain ⟨rows, hrows, hindex⟩ := Record.rowAt?_eq_some_iff_at?.1 hcell.row_eq
    cases (at?_tripValues "legs").symm.trans hrows
    exact Nat.lt_one_iff.1 (List.getElem?_eq_some_iff.1 hindex).1
  exact hreads.2 (.inr (Record.cellTakes_of_plain hplain (by decide) _ _ _ _))

/-- The cost of a leg is lost if the name of the list is dotted: the list is found under its whole
name, beside which the write descends. -/
theorem tripSchema_misses_cell :
    ofFields defaultDepthLimit [legs "trip.legs"] = .ok (tripSchema "trip.legs") ∧
      (tripSchema "trip.legs").initialValues [] = tripValues "trip.legs" ∧
      ((tripSchema "trip.legs").computeRows defaultEpsilon ⟨tripValues "trip.legs", []⟩
        (legs "trip.legs")).writes = [⟨"trip.legs.0.cost", some (.integer 6), .system⟩] ∧
      ((tripValues "trip.legs").apply ⟨"trip.legs.0.cost", some (.integer 6), .system⟩).cellAt?
        "trip.legs" 0 "cost" = none :=
  ⟨ofFields_of_order (s := tripSchema "trip.legs") rfl (by cbv), rfl,
    writes_computeRows_trip "trip.legs", rfl⟩

end Schema

end ReactiveForm
