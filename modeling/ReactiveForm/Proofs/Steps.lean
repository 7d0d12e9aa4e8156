import ReactiveForm.Proofs.Evaluation
import ReactiveForm.Proofs.Fields

/-!
# The steps of a recomputation

Everything that happens to the values while they settle happens in single writes, of two kinds.
`Schema.Computes` says which writes a computation proposes among some values: those of fields of the
form, and those of cells of rows.  `Schema.Clears` says which writes clear a field.

For passes and rounds made of such writes there is one principle of induction each
(`computePass_induction`, `clearRound_induction`): what every single write keeps, the whole of them
keeps.  `settle_induction` says the same of rounds.  What later modules prove about a recomputation
goes by these three, and looks at no loop again.

A write to a cell is read in full by `Record.WellFormed.write_cellPath`: it changes the cell's row,
and nothing else.

A pass returns the values it has arrived at together with the writes it proposes, and the two agree:
the values are those from before with the writes applied (`computePass_values`,
`clearRound_values`).  So what is to hold of the values is shown once for a single write, as
`Plain.apply` and `WellFormed.apply`, and reaches passes and rounds through the principles of
induction.
-/

set_option autoImplicit false
namespace ReactiveForm

variable {s : Schema} {epsilon : Binary64} {values : Record} {w : Write}

/-! ## Applying writes -/

namespace Record

theorem applyAll_cons (values : Record) (w : Write) (ws : List Write) :
    values.applyAll (w :: ws) = (values.apply w).applyAll ws := rfl

theorem applyAll_append (values : Record) (ws vs : List Write) :
    values.applyAll (ws ++ vs) = (values.applyAll ws).applyAll vs := List.foldl_append

/-- Writes to other plain names keep what a name holds. -/
theorem find?_applyAll_of_notMem {ws : List Write} {name : String}
    (hdot : ∀ w ∈ ws, isDotted w.path = false) (hname : name ∉ ws.map (·.path)) :
    Table.find? (values.applyAll ws) name = Table.find? values name := by
  induction ws generalizing values with
  | nil => rfl
  | cons w ws ih =>
    rw [List.map_cons, List.mem_cons, not_or] at hname
    rw [applyAll_cons, ih (fun v hv ↦ hdot v (List.mem_cons_of_mem _ hv)) hname.2, apply,
      write_of_not_isDotted (hdot w List.mem_cons_self), find?_put_of_ne hname.1]

/-- Names stay plain, whatever is written. -/
theorem Plain.apply (h : values.Plain) (w : Write) : (values.apply w).Plain := h.write _ _

theorem WellFormed.apply (h : values.WellFormed) (hw : ∀ v, w.value = some v → v.WellFormed) :
    (values.apply w).WellFormed := h.write _ hw

theorem WellFormed.overlay (h : values.WellFormed) {upper : Record} (hupper : upper.WellFormed) :
    Record.WellFormed (Table.overlay values upper) := by
  refine .record (h.ordered.overlay upper) fun e he ↦ ?_
  have hmem := (Value.wellFormed_record_iff.1 hupper).2
  clear hupper
  induction upper generalizing values with
  | nil => exact (Value.wellFormed_record_iff.1 h).2 e he
  | cons e' upper ih =>
    have hhead := hmem e' List.mem_cons_self
    exact ih (h.put e'.1 (x := some e'.2) fun v hv ↦ Option.some.inj hv ▸ hhead) he fun e he ↦
      hmem e (List.mem_cons_of_mem _ he)

theorem WellFormed.rowAt? (h : values.WellFormed) {list : String} {index : Nat} {row : Record}
    (hrow : values.rowAt? list index = some row) : row.WellFormed := by
  rw [Record.rowAt?] at hrow
  split at hrow
  · rename_i rows hrows
    split at hrow
    · rename_i row' hrow'
      obtain rfl := Option.some.inj hrow
      exact (Value.wellFormed_list_iff.1 (h.at? hrows)).2 _ (List.mem_of_getElem? hrow')
    · cases hrow
  · cases hrow

end Record

/-! ## Cells -/

/-- A plain name is not the path of a cell. -/
theorem isDotted_cellPath (list : String) (index : Nat) (column : String) :
    isDotted (cellPath list index column) = true := by
  simp [cellPath, isDotted]

/-- The path of a cell goes through the list and the row. -/
theorem segments_cellPath_eq_append (list : String) (index : Nat) (column : String) :
    segments (cellPath list index column) =
      segments list ++ toString index :: segments column := by
  have hassoc : cellPath list index column = list ++ "." ++ (toString index ++ "." ++ column) := by
    simp only [cellPath, String.append_assoc]
  rw [hassoc, segments_append, segments_append, segments_of_not_isDotted (isDotted_toString index)]
  rfl

/-- A cell lies two steps inside its list, and further if the column is dotted. -/
theorem segments_cellPath {list : String} (hlist : isDotted list = false) (index : Nat)
    (column : String) :
    segments (cellPath list index column) = list :: toString index :: segments column := by
  rw [segments_cellPath_eq_append, segments_of_not_isDotted hlist]
  rfl

namespace Record

/-- **A regular record**: a host could hold it, and it holds no dotted name flat. -/
structure Regular (values : Record) : Prop where
  plain : values.Plain
  wellFormed : values.WellFormed

variable {list column name : String} {index : Nat} {row : Record} {rows : List Value}

/-- A name and a cell of another list lie apart. -/
theorem apart_cellPath (hlist : isDotted list = false)
    (hname : isDotted name = false) (hne : list ≠ name) (index : Nat) (column : String) :
    Apart (cellPath list index column) name :=
  apart_of_head_ne (segments_cellPath hlist index column) (segments_of_not_isDotted hname) hne

/-- What is apart from a list is apart from its cells. -/
theorem Apart.cellPath {path : String} (h : Apart path list) (index : Nat) (column : String) :
    Apart path (cellPath list index column) :=
  (h.append (toString index)).append column

/-- A cell lies inside its list. -/
theorem inside_cellPath (hlist : isDotted list = false) (index : Nat)
    (column : String) : Inside (cellPath list index column) list := by
  rw [Inside, segments_of_not_isDotted hlist, segments_cellPath hlist]
  exact ⟨_, rfl⟩

/-- Cells of different rows lie apart. -/
theorem apart_cellPath_cellPath {column' : String} {i j : Nat}
    (hlist : isDotted list = false) (hi : i < UInt64.size) (hj : j < UInt64.size) (hne : i ≠ j) :
    Apart (cellPath list i column) (cellPath list j column') := by
  have hindex : ¬Value.SameRow (toString i) (toString j) := by
    rintro ⟨k, hik, hjk⟩
    rw [indexOfText?_toString hi] at hik
    rw [indexOfText?_toString hj] at hjk
    exact hne ((Option.some.inj hik).trans (Option.some.inj hjk).symm)
  have hname : toString i ≠ toString j := fun heq ↦
    hindex ⟨i, indexOfText?_toString hi, heq ▸ indexOfText?_toString hi⟩
  rw [Apart, segments_cellPath hlist, segments_cellPath hlist]
  exact .inr (.inl ⟨hname, hindex⟩)

theorem rowAt?_eq_some_iff_at? : values.rowAt? list index = some row ↔
    ∃ rows, values.at? list = some (.list rows) ∧ rows[index]? = some (.record row) := by
  rw [rowAt?]
  constructor
  · intro h
    split at h
    · rename_i rows hrows
      split at h
      · rename_i row' hrow
        exact ⟨rows, hrows, Option.some.inj h ▸ hrow⟩
      · cases h
    · cases h
  · rintro ⟨rows, hrows, hrow⟩
    simp only [hrows, hrow]

theorem rowAt?_eq_some_iff (hlist : isDotted list = false) :
    values.rowAt? list index = some row ↔
      ∃ rows, Table.find? values list = some (.list rows) ∧ rows[index]? = some (.record row) := by
  rw [rowAt?_eq_some_iff_at?, at?_of_not_isDotted hlist]

theorem lt_rowCount (hlist : isDotted list = false) (hrow : values.rowAt? list index = some row) :
    index < values.rowCount list := by
  obtain ⟨rows, hrows, hindex⟩ := (rowAt?_eq_some_iff hlist).1 hrow
  rw [rowCount, at?_of_not_isDotted hlist, hrows]
  exact (List.getElem?_eq_some_iff.1 hindex).1

/-- The number of a row fits a machine word. -/
theorem WellFormed.index_lt (h : values.WellFormed)
    (hrows : Table.find? values list = some (.list rows)) (hindex : index < rows.length) :
    index < UInt64.size :=
  Nat.lt_trans hindex (Value.wellFormed_list_iff.1 (h.find? hrows)).1

theorem WellFormed.index_lt_of_rowAt? (h : values.WellFormed) (hlist : isDotted list = false)
    (hrow : (values.rowAt? list index).isSome) : index < UInt64.size := by
  obtain ⟨row, hrow⟩ := Option.isSome_iff_exists.1 hrow
  obtain ⟨rows, hrows, hindex⟩ := (rowAt?_eq_some_iff hlist).1 hrow
  exact h.index_lt hrows (List.getElem?_eq_some_iff.1 hindex).1

/-- **Writing a cell changes its row**, and nothing else. -/
theorem WellFormed.write_cellPath (hvalues : values.WellFormed)
    (hflat : ¬values.HoldsFlat (cellPath list index column))
    (hlist : isDotted list = false) (hcolumn : isDotted column = false)
    (hrows : Table.find? values list = some (.list rows)) (hrow : rows[index]? = some (.record row))
    (x : Option Value) :
    values.write (cellPath list index column) x =
      values.put list (some (.list (rows.set index (.record (row.put column x))))) := by
  have hindex : index < rows.length := (List.getElem?_eq_some_iff.1 hrow).1
  rw [write_eq hflat, segments_cellPath hlist, segments_of_not_isDotted hcolumn,
    Value.writeAt_record, hrows, Value.stepInto, if_neg (by simp), Option.getD_some,
    Value.container, Value.writeAt_list, Value.modifyRow,
    indexOfText?_toString (hvalues.index_lt hrows hindex)]
  simp only [Value.fields, List.modify_eq_set, hrow, Option.getD_some, Value.stepInto,
    Value.container, List.isEmpty_cons, Bool.false_eq_true, if_false, Value.writeAt_record,
    List.isEmpty_nil, if_true]

/-- The rows of a list depend on what the list holds, and on nothing else. -/
theorem rowAt?_congr {other : Record} (hlist : isDotted list = false)
    (h : Table.find? other list = Table.find? values list) (index : Nat) :
    other.rowAt? list index = values.rowAt? list index := by
  rw [rowAt?, rowAt?, at?_of_not_isDotted hlist, at?_of_not_isDotted hlist, h]

/-- **The rows after a cell has been written**: its own has the value, the others are as they
were. -/
theorem WellFormed.rowAt?_write_cellPath (h : values.WellFormed)
    (hflat : ¬values.HoldsFlat (cellPath list index column)) (hlist : isDotted list = false)
    (hcolumn : isDotted column = false) (hrow : values.rowAt? list index = some row)
    (x : Option Value) (other : Nat) :
    (values.write (cellPath list index column) x).rowAt? list other =
      if other = index then some (row.put column x) else values.rowAt? list other := by
  obtain ⟨rows, hrows, hindex⟩ := (rowAt?_eq_some_iff hlist).1 hrow
  rw [h.write_cellPath hflat hlist hcolumn hrows hindex, Record.rowAt?,
    at?_of_not_isDotted hlist, find?_put_self, Record.rowAt?, at?_of_not_isDotted hlist, hrows]
  simp only [List.getElem?_set]
  by_cases hother : other = index
  · subst hother
    simp [(List.getElem?_eq_some_iff.1 hindex).1]
  · rw [if_neg (Ne.symm hother), if_neg hother]

theorem Regular.rowAt?_write_cellPath (h : values.Regular) (hlist : isDotted list = false)
    (hcolumn : isDotted column = false) (hrow : values.rowAt? list index = some row)
    (x : Option Value) (other : Nat) :
    (values.write (cellPath list index column) x).rowAt? list other =
      if other = index then some (row.put column x) else values.rowAt? list other :=
  h.wellFormed.rowAt?_write_cellPath (h.plain.not_holdsFlat _) hlist hcolumn hrow x other

/-- A write to a cell keeps what other names hold. -/
theorem Plain.find?_write_cellPath (hplain : values.Plain) (hlist : isDotted list = false)
    (hname : name ≠ list) (index : Nat) (column : String) (x : Option Value) :
    Table.find? (values.write (cellPath list index column) x) name = Table.find? values name := by
  refine hplain.find?_write ?_ x
  rw [segments_cellPath hlist, List.head?_cons, ne_eq, Option.some.injEq]
  exact Ne.symm hname

/-- A write to a cell of a list leaves a list with as many rows. -/
theorem Plain.find?_write_cellPath_self (hplain : values.Plain) (hlist : isDotted list = false)
    (hrows : Table.find? values list = some (.list rows)) (index : Nat) (column : String)
    (x : Option Value) :
    ∃ rows', Table.find? (values.write (cellPath list index column) x) list = some (.list rows') ∧
      rows'.length = rows.length := by
  rw [write_eq (hplain.not_holdsFlat _), segments_cellPath hlist, Value.writeAt_record, hrows,
    Value.stepInto,
    if_neg (by simp), Option.getD_some, Value.container, Value.writeAt_list]
  simp only [Value.fields, find?_put_self]
  exact ⟨_, rfl, Value.length_modifyRow _ _ _⟩

end Record

/-! ## Computed writes -/

/-- A proposed write carries what the computation gives in its scope. -/
theorem Declaration.computedWrite?_eq_some {d : Declaration} {path : String} {scope : Record}
    {current : Option Value} (h : d.computedWrite? epsilon path scope current = some w) :
    w = ⟨path, d.computation.bind (·.evaluate scope), .system⟩ := by
  rw [computedWrite?] at h
  split at h
  · exact (Option.some.inj h).symm
  · cases h

namespace Schema

/-- **The writes that computations propose** among some values. -/
inductive Computes (s : Schema) (epsilon : Binary64) (values : Record) : Write → Prop where
  /-- A field of the form has another value than it computes. -/
  | field {name : String} {f : Field} {w : Write} (hname : name ∈ s.computeOrder)
      (hform : name ∉ s.rowNames) (hfield : s.field? name = some f)
      (hw : f.computedWrite? epsilon name values (values.at? f.name) = some w) :
      Computes s epsilon values w
  /-- A cell of a row has another value than it computes. -/
  | cell {list column : Field} {index : Nat} {row : Record} {w : Write}
      (hlist : list ∈ outerListsOf s.fields) (hcolumn : column ∈ s.computedCells list)
      (hrow : values.rowAt? list.name index = some row)
      (hw : column.computedWrite? epsilon (cellPath list.name index column.name)
        (values.overlay row) (row.at? column.name) = some w) :
      Computes s epsilon values w

/-- The write that clears a field. -/
def clearing (s : Schema) (name : String) : Write :=
  ⟨name, if (s.field? name).any (·.multiple) then some (.list []) else none, .system⟩

/-- **The writes that clear**, of the fields with given names that are not empty. -/
def Clears (s : Schema) (values : Record) (names : List String) (w : Write) : Prop :=
  ∃ name ∈ names, Value.isEmpty (values.at? name) = false ∧ w = s.clearing name

/-! ## Induction over writes

Each loop has its own lemma, from a single proposed write up to a pass or a round.  What a caller
has to show is always the same: that a proposed write keeps the property, given the values that it
was proposed among. -/

variable {P : Progress → Prop}

theorem extend_induction {write? : Option Write} {p : Progress} (hp : P p)
    (write : ∀ w, write? = some w → P (p.extend (some w))) : P (p.extend write?) := by
  cases write? with
  | none => exact hp
  | some w => exact write w rfl

/-- What every write to one of some cells of a row keeps, computing these cells keeps. -/
theorem computeCells_induction {list : String} {index : Nat} {cells : List Field} {p : Progress}
    (hp : P p)
    (write : ∀ p c row w, P p → c ∈ cells → p.values.rowAt? list index = some row →
      c.computedWrite? epsilon (cellPath list index c.name) (p.values.overlay row)
        (row.at? c.name) = some w → P (p.extend (some w))) :
    P (computeCells epsilon list index cells p) := by
  induction cells generalizing p with
  | nil => exact hp
  | cons c cells ih =>
    rw [computeCells]
    split
    · exact hp
    · rename_i row hrow
      refine ih ?_ fun p c row w hp hc ↦ write p c row w hp (List.mem_cons_of_mem _ hc)
      exact extend_induction hp fun w hw ↦ write p c row w hp List.mem_cons_self hrow hw

/-- What every write to a computed cell of a list keeps, computing all of them keeps. -/
theorem computeRows_induction {list : Field} {p : Progress} (hp : P p)
    (write : ∀ p index c row w, P p → c ∈ s.computedCells list →
      p.values.rowAt? list.name index = some row →
      c.computedWrite? epsilon (cellPath list.name index c.name) (p.values.overlay row)
        (row.at? c.name) = some w → P (p.extend (some w))) :
    P (s.computeRows epsilon p list) := by
  rw [computeRows]
  split
  · exact hp
  · exact List.foldlRecOn _ _ hp fun p hp index _ ↦
      computeCells_induction hp fun p c row w ↦ write p index c row w

theorem computeField_induction {name : String} {p : Progress} (hp : P p)
    (hname : name ∈ s.computeOrder) (hform : name ∉ s.rowNames)
    (write : ∀ p w, P p → s.Computes epsilon p.values w → P (p.extend (some w))) :
    P (s.computeField epsilon p name) := by
  rw [computeField]
  split
  · rename_i f hfield
    exact extend_induction hp fun w hw ↦ write p w hp (.field hname hform hfield hw)
  · exact hp

/-- **What every computed write keeps, a pass keeps.** -/
theorem computePass_induction (start : P ⟨values, []⟩)
    (write : ∀ p w, P p → s.Computes epsilon p.values w → P (p.extend (some w))) :
    P (s.computePass epsilon values) := by
  rw [computePass]
  refine List.foldlRecOn _ _ (List.foldlRecOn _ _ start fun p hp name hname ↦ ?_)
    fun p hp list hlist ↦ ?_
  · obtain ⟨hname, hform⟩ := List.mem_filter.1 hname
    exact computeField_induction hp hname (by simpa using hform) write
  · exact computeRows_induction hp fun p index c row w hp hc hrow hw ↦
      write p w hp (.cell hlist hc hrow hw)

theorem clearEach_induction {names : List String} {p : Progress} (hp : P p)
    (write : ∀ p w, P p → s.Clears p.values names w → P (p.extend (some w))) :
    P (s.clearEach names p) := by
  induction names generalizing p with
  | nil => exact hp
  | cons name names ih =>
    rw [clearEach]
    refine ih ?_ fun p w hp ⟨n, hn, hw⟩ ↦ write p w hp ⟨n, List.mem_cons_of_mem _ hn, hw⟩
    refine extend_induction hp fun w hw ↦ write p w hp ⟨name, List.mem_cons_self, ?_⟩
    rw [clearingWrite?] at hw
    split at hw
    · cases hw
    · rename_i hempty
      exact ⟨by simpa using hempty, (Option.some.inj hw).symm⟩

/-- **What every write that clears keeps, a round of clearing keeps.** -/
theorem clearRound_induction {sources kept : List String} (start : P ⟨values, []⟩)
    (write : ∀ p w, P p → s.Clears p.values (s.clearTargets sources kept) w →
      P (p.extend (some w))) :
    P (s.clearRound sources kept values) :=
  clearEach_induction start write

/-- What every computed write has in common, where the values have something in common that every
such write keeps. -/
theorem computePass_forall {I : Record → Prop} {Q : Write → Prop} (start : I values)
    (write : ∀ V w, I V → s.Computes epsilon V w → I (V.apply w) ∧ Q w) :
    I (s.computePass epsilon values).values ∧ ∀ w ∈ (s.computePass epsilon values).writes, Q w := by
  refine computePass_induction (P := fun p ↦ I p.values ∧ ∀ w ∈ p.writes, Q w)
    ⟨start, by simp⟩ fun p w hp hw ↦ ?_
  obtain ⟨hvalues, hwrite⟩ := write p.values w hp.1 hw
  exact ⟨hvalues, List.forall_mem_append.2 ⟨hp.2, List.forall_mem_singleton.2 hwrite⟩⟩

/-- What every write that clears has in common. -/
theorem clearRound_forall {sources kept : List String} {Q : Write → Prop}
    (write : ∀ V w, s.Clears V (s.clearTargets sources kept) w → Q w) :
    ∀ w ∈ (s.clearRound sources kept values).writes, Q w := by
  refine clearRound_induction (P := fun p ↦ ∀ w ∈ p.writes, Q w) (by simp) fun p w hp hw ↦ ?_
  exact List.forall_mem_append.2 ⟨hp, List.forall_mem_singleton.2 (write p.values w hw)⟩

/-- A round that clears nothing is the last one. -/
theorem settle_of_writes_eq_nil {sources kept : List String} {st : Settling}
    (h : (s.clearRound sources kept st.values).writes = []) :
    s.settle epsilon sources kept st = st := by
  rw [settle, dif_pos h]

/-- Any other round is followed by a pass and by more rounds. -/
theorem settle_of_writes_ne_nil {sources kept : List String} {st : Settling}
    (h : (s.clearRound sources kept st.values).writes ≠ []) :
    let round := s.clearRound sources kept st.values
    let pass := s.computePass epsilon round.values
    s.settle epsilon sources kept st = s.settle epsilon ((round.writes ++ pass.writes).map (·.path))
      (kept ++ round.writes.map (·.path))
      ⟨pass.values, mergeWrites st.computed pass.writes, st.cleared ++ round.writes⟩ := by
  rw [settle, dif_neg h]

/-- **What every round keeps holds in the end**, when there is nothing left to clear. -/
theorem settle_induction {Q : List String → List String → Settling → Prop}
    {sources kept : List String} {st : Settling} (start : Q sources kept st)
    (round : ∀ sources kept st, Q sources kept st →
      let round := s.clearRound sources kept st.values
      let pass := s.computePass epsilon round.values
      Q ((round.writes ++ pass.writes).map (·.path)) (kept ++ round.writes.map (·.path))
        ⟨pass.values, mergeWrites st.computed pass.writes, st.cleared ++ round.writes⟩) :
    ∃ sources' kept', Q sources' kept' (s.settle epsilon sources kept st) ∧
      (s.clearRound sources' kept' (s.settle epsilon sources kept st).values).writes = [] := by
  induction sources, kept, st using settle.induct s epsilon with
  | case1 sources kept st round hround =>
    rw [settle_of_writes_eq_nil hround]
    exact ⟨sources, kept, start, hround⟩
  | case2 sources kept st round' hround pass ih =>
    rw [settle_of_writes_ne_nil hround]
    exact ih (round sources kept st start)

/-- **Two schemas settle in step** if they find something to clear in the same rounds: what each
round keeps true of both holds of both in the end. -/
theorem settle_in_step {t : Schema}
    {R : List String → List String → Settling → List String → List String → Settling → Prop}
    {sources kept sources' kept' : List String} {st st' : Settling}
    (start : R sources kept st sources' kept' st')
    (done : ∀ sources kept st sources' kept' st', R sources kept st sources' kept' st' →
      ((s.clearRound sources kept st.values).writes = [] ↔
        (t.clearRound sources' kept' st'.values).writes = []))
    (step : ∀ sources kept st sources' kept' st', R sources kept st sources' kept' st' →
      let round := s.clearRound sources kept st.values
      let pass := s.computePass epsilon round.values
      let round' := t.clearRound sources' kept' st'.values
      let pass' := t.computePass epsilon round'.values
      R ((round.writes ++ pass.writes).map (·.path)) (kept ++ round.writes.map (·.path))
        ⟨pass.values, mergeWrites st.computed pass.writes, st.cleared ++ round.writes⟩
        ((round'.writes ++ pass'.writes).map (·.path)) (kept' ++ round'.writes.map (·.path))
        ⟨pass'.values, mergeWrites st'.computed pass'.writes, st'.cleared ++ round'.writes⟩) :
    ∃ sources₁ kept₁ sources₂ kept₂, R sources₁ kept₁ (s.settle epsilon sources kept st)
      sources₂ kept₂ (t.settle epsilon sources' kept' st') := by
  refine settle.induct s epsilon (fun sources kept st ↦ ∀ sources' kept' st',
    R sources kept st sources' kept' st' → ∃ sources₁ kept₁ sources₂ kept₂,
      R sources₁ kept₁ (s.settle epsilon sources kept st)
        sources₂ kept₂ (t.settle epsilon sources' kept' st')) ?_ ?_ sources kept st _ _ _ start
  · intro sources kept st round hround sources' kept' st' h
    have hround' := (done _ _ _ _ _ _ h).1 hround
    rw [settle_of_writes_eq_nil hround, settle_of_writes_eq_nil hround']
    exact ⟨_, _, _, _, h⟩
  · intro sources kept st round hround pass ih sources' kept' st' h
    have hround' := mt (done _ _ _ _ _ _ h).2 hround
    rw [settle_of_writes_ne_nil hround, settle_of_writes_ne_nil hround']
    exact ih _ _ _ (step _ _ _ _ _ _ h)

/-! ## The values after passes and rounds -/

/-- **The values after a pass** are those before it, with its writes. -/
theorem computePass_values (s : Schema) (epsilon : Binary64) (values : Record) :
    (s.computePass epsilon values).values =
      values.applyAll (s.computePass epsilon values).writes :=
  computePass_induction (P := fun p ↦ p.values = values.applyAll p.writes) rfl fun p w hp _ ↦ by
    simp only [Progress.extend, Record.applyAll_append, ← hp]
    rfl

/-- **The values after a round of clearing** are those before it, with its writes. -/
theorem clearRound_values (s : Schema) (sources kept : List String) (values : Record) :
    (s.clearRound sources kept values).values =
      values.applyAll (s.clearRound sources kept values).writes :=
  clearRound_induction (P := fun p ↦ p.values = values.applyAll p.writes) rfl fun p w hp _ ↦ by
    simp only [Progress.extend, Record.applyAll_append, ← hp]
    rfl

/-- A computed write puts a value as a host could hold it. -/
theorem Computes.wellFormed (h : s.Computes epsilon values w) (hvalues : values.WellFormed)
    {v : Value} (hv : w.value = some v) : v.WellFormed := by
  cases h with
  | field hname hform hfield hw =>
    rw [Declaration.computedWrite?_eq_some hw] at hv
    obtain ⟨c, -, hv⟩ := Option.bind_eq_some_iff.1 hv
    exact c.evaluate_wellFormed hvalues hv
  | cell hlist hcolumn hrow hw =>
    rw [Declaration.computedWrite?_eq_some hw] at hv
    obtain ⟨c, -, hv⟩ := Option.bind_eq_some_iff.1 hv
    exact c.evaluate_wellFormed (hvalues.overlay (hvalues.rowAt? hrow)) hv

theorem Clears.wellFormed {names : List String} (h : s.Clears values names w) {v : Value}
    (hv : w.value = some v) : v.WellFormed := by
  obtain ⟨name, -, -, rfl⟩ := h
  rw [clearing] at hv
  split at hv
  · exact Option.some.inj hv ▸ .list (by decide) (by simp)
  · cases hv

end Schema

namespace Record

variable {sources kept : List String}

theorem Plain.computePass (h : values.Plain) : (s.computePass epsilon values).values.Plain :=
  Schema.computePass_induction (P := fun p ↦ p.values.Plain) h fun _ w hp _ ↦ hp.apply w

theorem Plain.clearRound (h : values.Plain) : (s.clearRound sources kept values).values.Plain :=
  Schema.clearRound_induction (P := fun p ↦ p.values.Plain) h fun _ w hp _ ↦ hp.apply w

/-- A computed write keeps a record as a host could hold it. -/
theorem WellFormed.apply_of_computes (h : values.WellFormed) (hw : s.Computes epsilon values w) :
    (values.apply w).WellFormed := h.apply fun _ ↦ hw.wellFormed h

theorem Regular.apply_of_computes (h : values.Regular) (hw : s.Computes epsilon values w) :
    (values.apply w).Regular := ⟨h.plain.apply w, h.wellFormed.apply_of_computes hw⟩

theorem WellFormed.computePass (h : values.WellFormed) :
    (s.computePass epsilon values).values.WellFormed :=
  Schema.computePass_induction (P := fun p ↦ p.values.WellFormed) h fun _ _ hp hw ↦
    hp.apply_of_computes hw

theorem WellFormed.clearRound (h : values.WellFormed) :
    (s.clearRound sources kept values).values.WellFormed :=
  Schema.clearRound_induction (P := fun p ↦ p.values.WellFormed) h fun _ _ hp hw ↦
    hp.apply fun _ hv ↦ hw.wellFormed hv

end Record

/-! ## Merging

A later write to a path takes the place of the earlier one, so that no path is written twice. -/

section

variable {ws more : List Write} {path : String}

theorem mem_mergeWrite {v : Write} (h : v ∈ mergeWrite w ws) : v = w ∨ v ∈ ws := by
  induction ws with
  | nil => exact .inl (List.mem_singleton.1 h)
  | cons u ws ih =>
    rw [mergeWrite] at h
    split at h
    · exact (List.mem_cons.1 h).imp_right (List.mem_cons_of_mem _)
    · rcases List.mem_cons.1 h with rfl | h
      · exact .inr List.mem_cons_self
      · exact (ih h).imp_right (List.mem_cons_of_mem _)

/-- Merging adds the path of the write and drops none. -/
theorem mem_paths_mergeWrite :
    path ∈ (mergeWrite w ws).map (·.path) ↔ path = w.path ∨ path ∈ ws.map (·.path) := by
  induction ws with
  | nil => simp [mergeWrite]
  | cons u ws ih =>
    rw [mergeWrite]
    split
    · rename_i hu
      simp [hu]
    · rw [List.map_cons, List.mem_cons, ih, List.map_cons, List.mem_cons, or_left_comm]

theorem nodup_paths_mergeWrite (h : (ws.map (·.path)).Nodup) (w : Write) :
    ((mergeWrite w ws).map (·.path)).Nodup := by
  induction ws with
  | nil => exact List.pairwise_singleton _ _
  | cons u ws ih =>
    rw [List.map_cons, List.nodup_cons] at h
    rw [mergeWrite]
    split
    · rename_i hu
      rw [List.map_cons, List.nodup_cons, ← hu]
      exact h
    · rename_i hu
      rw [List.map_cons, List.nodup_cons, mem_paths_mergeWrite, not_or]
      exact ⟨⟨hu, h.1⟩, ih h.2⟩

theorem mem_mergeWrites {v : Write} (h : v ∈ mergeWrites ws more) : v ∈ ws ∨ v ∈ more := by
  induction more generalizing ws with
  | nil => exact .inl h
  | cons w more ih =>
    rcases ih h with h | h
    · exact (mem_mergeWrite h).elim (fun h ↦ .inr (h ▸ List.mem_cons_self)) .inl
    · exact .inr (List.mem_cons_of_mem _ h)

/-- **Merging loses no path.** -/
theorem mem_paths_mergeWrites : path ∈ (mergeWrites ws more).map (·.path) ↔
    path ∈ ws.map (·.path) ∨ path ∈ more.map (·.path) := by
  induction more generalizing ws with
  | nil => simp [mergeWrites]
  | cons w more ih =>
    rw [mergeWrites, List.foldl_cons, ← mergeWrites, ih, mem_paths_mergeWrite, List.map_cons,
      List.mem_cons, or_assoc, or_left_comm]

/-- **Merging leaves one write at each path.** -/
theorem nodup_paths_mergeWrites (h : (ws.map (·.path)).Nodup) (more : List Write) :
    ((mergeWrites ws more).map (·.path)).Nodup := by
  induction more generalizing ws with
  | nil => exact h
  | cons w more ih => exact ih (nodup_paths_mergeWrite h w)

end

/-! ## Where a recomputation settles -/

/-- **Rounds only add** to the paths that are computed and cleared. -/
theorem Schema.paths_subset_settle {sources kept : List String} {st : Settling} :
    st.computed.map (·.path) ⊆ (s.settle epsilon sources kept st).computed.map (·.path) ∧
      st.cleared.map (·.path) ⊆ (s.settle epsilon sources kept st).cleared.map (·.path) := by
  induction sources, kept, st using settle.induct s epsilon with
  | case1 sources kept st round hround =>
    rw [settle_of_writes_eq_nil hround]
    exact ⟨List.Subset.refl _, List.Subset.refl _⟩
  | case2 sources kept st round hround pass ih =>
    rw [settle_of_writes_ne_nil hround]
    refine ⟨List.Subset.trans (fun _ hp ↦ mem_paths_mergeWrites.2 (.inl hp)) ih.1,
      List.Subset.trans (fun _ hp ↦ ?_) ih.2⟩
    rw [List.map_append]
    exact List.mem_append_left _ hp

/-- What a round clears is cleared in the end. -/
theorem Schema.paths_clearRound_subset_settle {sources kept : List String} {st : Settling} :
    (s.clearRound sources kept st.values).writes.map (·.path) ⊆
      (s.settle epsilon sources kept st).cleared.map (·.path) := by
  by_cases hround : (s.clearRound sources kept st.values).writes = []
  · rw [hround]
    exact List.nil_subset _
  · rw [settle_of_writes_ne_nil hround]
    refine List.Subset.trans ?_ paths_subset_settle.2
    rw [List.map_append]
    exact List.subset_append_right ..

/-- **The values that a recomputation settles on**, with the writes that lead there. -/
def Schema.settling (s : Schema) (epsilon : Binary64) (previous : Option Record) (next : Record) :
    Settling :=
  let changed := s.changed previous next
  let pass := s.computePass epsilon next
  s.settle epsilon (changed ++ pass.writes.map (·.path)) changed
    ⟨pass.values, mergeWrites [] pass.writes, []⟩

theorem Schema.recompute_eq (s : Schema) (flags : FormFlags) (epsilon : Binary64)
    (previous : Option Record) (next : Record) :
    s.recompute flags epsilon previous next =
      ⟨s.states (s.settling epsilon previous next).values flags,
        (s.settling epsilon previous next).computed, (s.settling epsilon previous next).cleared⟩ :=
  rfl

section

variable {changed : Names} {computed names : List String} {previous : Option Record} {next : Record}
  {path : String}

/-- What the first round clears is cleared: of the fields that are to be cleared for what has
changed and what the first pass has computed, those that are not empty when their turn comes. -/
theorem Schema.mem_cleared_of_first_round (hchanged : s.changed previous next = changed)
    (hcomputed : (s.computePass epsilon next).writes.map (·.path) = computed)
    (htargets : s.clearTargets (changed ++ computed) changed = names)
    (hpath : path ∈
      (s.clearEach names ⟨(s.computePass epsilon next).values, []⟩).writes.map (·.path)) :
    path ∈ (s.settling epsilon previous next).cleared.map (·.path) := by
  subst hchanged hcomputed htargets
  exact paths_clearRound_subset_settle hpath

/-- A single pass settles where no field is to be cleared for what has changed and what the pass has
computed. -/
theorem Schema.settling_of_clearTargets_eq_nil (hchanged : s.changed previous next = changed)
    (hcomputed : (s.computePass epsilon next).writes.map (·.path) = computed)
    (htargets : s.clearTargets (changed ++ computed) changed = []) :
    s.settling epsilon previous next = ⟨(s.computePass epsilon next).values,
      mergeWrites [] (s.computePass epsilon next).writes, []⟩ := by
  subst hchanged hcomputed
  refine settle_of_writes_eq_nil ?_
  rw [clearRound, htargets]
  rfl

/-- Where no field wants to be cleared, a single pass settles. -/
theorem Schema.settling_of_clearable_eq_nil (h : s.clearable = []) (previous : Option Record)
    (next : Record) : s.settling epsilon previous next = ⟨(s.computePass epsilon next).values,
      mergeWrites [] (s.computePass epsilon next).writes, []⟩ := by
  refine settling_of_clearTargets_eq_nil rfl rfl ?_
  rw [clearTargets, h]
  exact List.filter_eq_nil_iff.2 (by simp)

end

/-- **What the first pass establishes and every round keeps holds where a recomputation settles**,
and there is nothing left to clear. -/
theorem Schema.settling_induction (s : Schema) (epsilon : Binary64) (previous : Option Record)
    (next : Record) {Q : List String → List String → Settling → Prop}
    (start : let pass := s.computePass epsilon next
      Q (s.changed previous next ++ pass.writes.map (·.path)) (s.changed previous next)
        ⟨pass.values, mergeWrites [] pass.writes, []⟩)
    (round : ∀ sources kept st, Q sources kept st →
      let round := s.clearRound sources kept st.values
      let pass := s.computePass epsilon round.values
      Q ((round.writes ++ pass.writes).map (·.path)) (kept ++ round.writes.map (·.path))
        ⟨pass.values, mergeWrites st.computed pass.writes, st.cleared ++ round.writes⟩) :
    ∃ sources kept, Q sources kept (s.settling epsilon previous next) ∧
      (s.clearRound sources kept (s.settling epsilon previous next).values).writes = [] :=
  settle_induction start round

end ReactiveForm
