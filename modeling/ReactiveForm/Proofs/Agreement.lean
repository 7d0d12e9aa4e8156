import ReactiveForm.Proofs.Steps

/-!
# What a pass leaves in agreement

A field agrees with its computation if what it holds does not differ materially from what it
computes.  When a field is computed it agrees, since no computation reads what it computes.  It
stays in agreement as long as nothing is written that it reads: this is what the order of
computations is for.  But the order is among names, and cells are computed behind all fields of the
form, list by list and row by row.  So a field agrees after a pass if it *looks back*
(`Schema.LooksBack`): it reads none of the cells that are computed behind it, and takes no member of
anything computed.

That is what `Schema.fieldAgrees_computePass` says of the fields of the form and
`Schema.cellAgrees_computePass` of the cells of lists, in schemas whose names differ and are plain
and whose computed fields are no lists (`Schema.Replayable`).  Where all computations read plain
names that are none of a list (`Schema.Steady`), everything looks back.  Then a pass leaves
everything in agreement (`Schema.agreement_computePass`), and a pass over values in agreement writes
nothing (`Schema.computePass_of_agreement`).
-/

set_option autoImplicit false
namespace ReactiveForm

open Record

/-! ## Replayable and steady schemas

Two sets of conditions, the second stronger.  Under the first one the writes of a recomputation can
be made again by the host; under the second one nothing is left to be computed when they have
been. -/

/-- **A schema whose proposed writes can be replayed**: its names differ and are plain, and computed
fields are neither lists nor cleared. -/
structure Schema.Replayable (s : Schema) : Prop where
  distinct : s.DistinctNames
  plain : s.PlainNames
  notList : ∀ f ∈ s.allFields, f.computation.isSome → f.kind ≠ .list
  notCleared : ∀ f ∈ s.allFields, f.computation.isSome → f.clearOnChange = false

instance (s : Schema) : Decidable s.Replayable :=
  decidable_of_iff (s.DistinctNames ∧ s.PlainNames ∧
      (∀ f ∈ s.allFields, f.computation.isSome → f.kind ≠ .list) ∧
      ∀ f ∈ s.allFields, f.computation.isSome → f.clearOnChange = false)
    ⟨fun ⟨distinct, plain, notList, notCleared⟩ ↦ { distinct, plain, notList, notCleared },
      fun h ↦ ⟨h.distinct, h.plain, h.notList, h.notCleared⟩⟩

/-- **A schema whose computations come to rest**: its names differ and are plain, computed fields
are neither lists nor cleared, and no computation reads a list. -/
structure Schema.Steady (s : Schema) : Prop where
  distinct : s.DistinctNames
  plain : s.PlainNames
  notList : ∀ f ∈ s.allFields, f.computation.isSome → f.kind ≠ .list
  notCleared : ∀ f ∈ s.allFields, f.computation.isSome → f.clearOnChange = false
  plainInputs : ∀ f ∈ s.allFields, ∀ c ∈ f.computation, ∀ path ∈ c.inputs, isDotted path = false
  noListInputs : ∀ f ∈ s.allFields, ∀ c ∈ f.computation, ∀ path ∈ c.inputs,
    ∀ list ∈ s.allFields, list.kind = .list → list.name ≠ path

instance (s : Schema) : Decidable s.Steady :=
  decidable_of_iff (s.DistinctNames ∧ s.PlainNames ∧
      (∀ f ∈ s.allFields, f.computation.isSome → f.kind ≠ .list) ∧
      (∀ f ∈ s.allFields, f.computation.isSome → f.clearOnChange = false) ∧
      (∀ f ∈ s.allFields, ∀ c ∈ f.computation, ∀ path ∈ c.inputs, isDotted path = false) ∧
      ∀ f ∈ s.allFields, ∀ c ∈ f.computation, ∀ path ∈ c.inputs,
        ∀ list ∈ s.allFields, list.kind = .list → list.name ≠ path)
    ⟨fun ⟨distinct, plain, notList, notCleared, plainInputs, noListInputs⟩ ↦
        { distinct, plain, notList, notCleared, plainInputs, noListInputs },
      fun h ↦ ⟨h.distinct, h.plain, h.notList, h.notCleared, h.plainInputs, h.noListInputs⟩⟩

/-- A steady schema is replayable. -/
theorem Schema.Steady.replayable {s : Schema} (h : s.Steady) : s.Replayable :=
  { distinct := h.distinct, plain := h.plain, notList := h.notList, notCleared := h.notCleared }

/-! ## Agreement -/

/-- **A field agrees with its computation** in a scope, up to what does not count as a change. -/
def Declaration.Agrees (d : Declaration) (epsilon : Binary64) (scope : Record)
    (current : Option Value) : Prop :=
  changesMaterially current (d.computation.bind (·.evaluate scope)) epsilon = false

/-- **A computation ignores a path**: all that it reads lies apart from it. -/
def Declaration.Ignores (d : Declaration) (path : String) : Prop :=
  ∀ c, d.computation = some c → ∀ input ∈ c.inputs, Apart input path

namespace Declaration

variable {d : Declaration} {epsilon : Binary64} {path : String} {scope scope' : Record}
  {current : Option Value}

/-- Where there is agreement, nothing is written. -/
theorem computedWrite?_eq_none (h : d.Agrees epsilon scope current) :
    d.computedWrite? epsilon path scope current = none := by
  rw [computedWrite?, h]
  rfl

/-- Where nothing is written, there has been agreement. -/
theorem agrees_of_computedWrite?_eq_none (h : d.computedWrite? epsilon path scope current = none) :
    d.Agrees epsilon scope current := by
  rw [computedWrite?] at h
  split at h
  · cases h
  · rename_i hchange
    rwa [Bool.not_eq_true] at hchange

theorem bind_evaluate_congr
    (h : ∀ c, d.computation = some c → ∀ path ∈ c.inputs, scope.at? path = scope'.at? path) :
    d.computation.bind (·.evaluate scope) = d.computation.bind (·.evaluate scope') := by
  cases hc : d.computation with
  | none => rfl
  | some c => exact Computation.evaluate_congr (h c hc)

/-- Agreement depends on what is read. -/
theorem Agrees.congr (hagrees : d.Agrees epsilon scope current)
    (h : ∀ c, d.computation = some c → ∀ path ∈ c.inputs, scope.at? path = scope'.at? path) :
    d.Agrees epsilon scope' current := by
  rw [Agrees, ← bind_evaluate_congr h]
  exact hagrees

/-- What was computed agrees, unless writing it changed what is read. -/
theorem agrees_of_computed {e : Finite64} (he : 0 ≤ e.signed)
    (h : ∀ c, d.computation = some c → ∀ path ∈ c.inputs, scope.at? path = scope'.at? path) :
    d.Agrees (.finite e) scope' (d.computation.bind (·.evaluate scope)) := by
  rw [Agrees, ← bind_evaluate_congr h]
  exact changesMaterially_self _ he

/-! ## What a computation ignores

The scope of a cell is the values of the form with those of the row laid over them.  A write to
another cell of the row changes both of them, and is ignored if the computation reads neither the
path nor the name. -/

variable {row : Record} {name : String}

/-- A write to what is ignored is not seen. -/
theorem Ignores.at?_write (h : d.Ignores path) (values : Record) (x : Option Value) :
    ∀ c, d.computation = some c → ∀ input ∈ c.inputs,
      values.at? input = (values.write path x).at? input :=
  fun c hc input hinput ↦ (Record.at?_write (h c hc input hinput) values x).symm

theorem Ignores.at?_overlay_write (h : d.Ignores path) (hrow : Table.Ordered row)
    (values : Record) (x : Option Value) :
    ∀ c, d.computation = some c → ∀ input ∈ c.inputs,
      Record.at? (values.overlay row) input =
        Record.at? ((values.write path x).overlay row) input :=
  fun c hc input hinput ↦ at?_overlay_congr hrow hrow rfl rfl rfl
    (find?_write_of_apart (h c hc input hinput) values x).symm
    (Record.at?_write (h c hc input hinput) values x).symm

/-- Nor are a write to the values and a change of the row, if both are ignored. -/
theorem Ignores.at?_overlay_write_put (h : d.Ignores path) (hrow : Table.Ordered row)
    (hname : d.Ignores name) (hdot : isDotted name = false) (values : Record)
    (x y : Option Value) :
    ∀ c, d.computation = some c → ∀ input ∈ c.inputs,
      Record.at? (values.overlay row) input =
        Record.at? ((values.write path x).overlay (row.put name y)) input := by
  intro c hc input hinput
  have hapart := hname c hc input hinput
  exact at?_overlay_congr hrow (hrow.put name y) (find?_put_of_ne hapart.ne).symm
    (any_has_put (hapart.head?_ne hdot) y).symm (at?_put hdot hapart y).symm
    (find?_write_of_apart (h c hc input hinput) values x).symm
    (Record.at?_write (h c hc input hinput) values x).symm

end Declaration

namespace Schema

/-- The field with a name agrees with its computation. -/
def FieldAgrees (s : Schema) (epsilon : Binary64) (values : Record) (name : String) : Prop :=
  ∀ f, s.field? name = some f → f.Agrees epsilon values (values.at? name)

/-- A cell agrees with its computation, if its row is there. -/
def CellAgrees (epsilon : Binary64) (values : Record) (list : String) (index : Nat)
    (column : Field) : Prop :=
  ∀ row, values.rowAt? list index = some row →
    column.Agrees epsilon (values.overlay row) (row.at? column.name)

/-- **Values in agreement**: every computed field of the form and every computed cell of its lists
agrees with its computation. -/
structure Agreement (s : Schema) (epsilon : Binary64) (values : Record) : Prop where
  fields : ∀ name ∈ s.computeOrder, name ∉ s.rowNames → s.FieldAgrees epsilon values name
  cells : ∀ list ∈ outerListsOf s.fields, ∀ column ∈ s.computedCells list, ∀ index,
    CellAgrees epsilon values list.name index column

variable {s : Schema} {epsilon : Binary64} {values : Record} {name : String} {list column : Field}
  {index : Nat} {p : Progress}

/-! ## Nothing to compute

A computation whose field agrees writes nothing, so a pass over values in agreement stands still at
every step. -/

/-- A field in agreement is left alone. -/
theorem computeField_of_agrees (h : s.FieldAgrees epsilon p.values name) :
    s.computeField epsilon p name = p := by
  rw [computeField]
  split
  · rename_i f hf
    have hname := (mem_of_field? hf).2
    rw [hname, Declaration.computedWrite?_eq_none (h f hf)]
    rfl
  · rfl

/-- So are the cells of a row. -/
theorem computeCells_of_agrees {cells : List Field} {listName : String}
    (h : ∀ c ∈ cells, CellAgrees epsilon p.values listName index c) :
    computeCells epsilon listName index cells p = p := by
  induction cells with
  | nil => rfl
  | cons c cells ih =>
    rw [computeCells]
    split
    · rfl
    · rename_i row hrow
      rw [Declaration.computedWrite?_eq_none (h c List.mem_cons_self row hrow)]
      exact ih fun c hc ↦ h c (List.mem_cons_of_mem _ hc)

private theorem foldl_eq_self {α β : Type} {step : β → α → β} {b : β} {l : List α}
    (h : ∀ a ∈ l, step b a = b) : l.foldl step b = b :=
  List.foldlRecOn (motive := (· = b)) l step rfl fun _ hc a ha ↦ hc ▸ h a ha

/-- **A pass over values in agreement** writes nothing. -/
theorem computePass_of_agreement (h : s.Agreement epsilon values) :
    s.computePass epsilon values = ⟨values, []⟩ := by
  rw [computePass]
  have hfields : (s.computeOrder.filter fun name ↦ !s.rowNames.contains name).foldl
      (s.computeField epsilon) ⟨values, []⟩ = ⟨values, []⟩ := by
    refine foldl_eq_self fun name hname ↦ computeField_of_agrees ?_
    obtain ⟨hname, hform⟩ := List.mem_filter.1 hname
    exact h.fields name hname (by simpa using hform)
  simp only [hfields]
  refine foldl_eq_self fun list hlist ↦ ?_
  rw [computeRows]
  split
  · rfl
  · exact foldl_eq_self fun index _ ↦
      computeCells_of_agrees fun c hc ↦ h.cells list hlist c hc index

/-! ## Computations that look back -/

section

variable {limit : Nat} {fs : List Field} {f : Field} {c : Computation} {path : String}

theorem Replayable.ne_list_of_mem_computeOrder (h : s.Replayable) (hs : ofFields limit fs = .ok s)
    (hname : name ∈ s.computeOrder) (hlist : list ∈ outerListsOf s.fields) : name ≠ list.name := by
  obtain ⟨f, hf, rfl, hcomputed⟩ := (mem_computeOrder_iff hs).1 hname
  intro heq
  have hmem := mem_allFields_of_mem_lists hlist
  rw [h.distinct.eq_of_name_eq hf hmem heq] at hcomputed
  exact h.notList list hmem hcomputed (kind_of_mem_outerListsOf _ hlist)

theorem mem_allFields_of_mem_computedCells (h : list ∈ outerListsOf s.fields)
    (hcolumn : column ∈ s.computedCells list) : column ∈ s.allFields :=
  (cons_cellsOf_sublist_preorder (mem_allFields_of_mem_lists h)).subset
    (List.mem_cons_of_mem _ (mem_computedCells hcolumn).1)

/-- **A computation that looks back** from some lists: it ignores their computed cells, and takes no
member of anything computed. -/
structure LooksBack (s : Schema) (f : Field) (later : List Field) : Prop where
  cells : ∀ list ∈ later, ∀ column ∈ s.computedCells list, ∀ index,
    f.Ignores (cellPath list.name index column.name)
  members : ∀ c, f.computation = some c → ∀ path ∈ c.inputs, isDotted path = true →
    ∀ name ∈ s.computeOrder, Apart path name

theorem LooksBack.of_subset {later later' : List Field} (h : s.LooksBack f later)
    (hsubset : later' ⊆ later) : s.LooksBack f later' :=
  ⟨fun list hlist ↦ h.cells list (hsubset hlist), h.members⟩

/-- Who looks back ignores what is computed later. -/
theorem LooksBack.ignores {later : List Field} {other : String} (h : s.LooksBack f later)
    (hf : s.field? name = some f) (havoids : s.Avoids name other) (hother : other ∈ s.computeOrder)
    (hdot : isDotted other = false) : f.Ignores other := by
  intro c hc path hpath
  cases hdotted : isDotted path with
  | false => exact apart_of_ne hdotted hdot fun heq ↦ havoids f hf c hc (heq ▸ hpath)
  | true => exact h.members c hc path hpath hdotted other hother

/-- All computations of a steady schema look back. -/
theorem Steady.looksBack (h : s.Steady) (hf : f ∈ s.allFields) :
    s.LooksBack f (outerListsOf s.fields) where
  cells list hlist column _ index c hc path hpath := by
    have hmem := mem_allFields_of_mem_lists hlist
    refine apart_of_head_ne (segments_of_not_isDotted (h.plainInputs f hf c hc path hpath))
      (segments_cellPath (h.plain.of_mem_lists hlist) ..) (Ne.symm ?_)
    exact h.noListInputs f hf c hc path hpath list hmem (kind_of_mem_outerListsOf _ hlist)
  members c hc path hpath hdotted := by
    rw [h.plainInputs f hf c hc path hpath] at hdotted
    cases hdotted

end

/-! ## Steps that establish agreement

To compute a field brings it into agreement.  What it computes then is what it has computed, for it
does not read itself. -/

/-- **What each step of a fold establishes and later steps keep** holds of all of them in the
end. -/
private theorem foldl_establishes {α β : Type} {step : β → α → β} (inv : β → Prop)
    (done : α → β → Prop) {l : List α} (hinv : ∀ a ∈ l, ∀ b, inv b → inv (step b a))
    (hself : ∀ a ∈ l, ∀ b, inv b → done a (step b a))
    (hkeep : l.Pairwise fun a a' ↦ ∀ b, inv b → done a b → done a (step b a')) {b : β}
    (hb : inv b) : ∀ a ∈ l, done a (l.foldl step b) := by
  induction l generalizing b with
  | nil => exact fun _ h ↦ absurd h List.not_mem_nil
  | cons a l ih =>
    have hinv' : ∀ a' ∈ l, ∀ b, inv b → inv (step b a') := fun a' ha' ↦
      hinv a' (List.mem_cons_of_mem _ ha')
    have hstep := hinv a List.mem_cons_self b hb
    obtain ⟨hhead, htail⟩ := List.pairwise_cons.1 hkeep
    intro a' ha'
    rw [List.foldl_cons]
    rcases List.mem_cons.1 ha' with rfl | ha'
    · exact (List.foldlRecOn (motive := fun b ↦ inv b ∧ done a' b) l step
        ⟨hstep, hself a' List.mem_cons_self b hb⟩ fun b hb a ha ↦
          ⟨hinv' a ha b hb.1, hhead a ha b hb.1 hb.2⟩).2
    · exact ih hinv' (fun a' ha' ↦ hself a' (List.mem_cons_of_mem _ ha')) htail hstep a' ha'

section

variable {limit : Nat} {fs : List Field} {f : Field} {e : Finite64} {path : String}

/-- A field of the form agrees when it has been computed. -/
theorem fieldAgrees_computeField (he : 0 ≤ e.signed) (hdot : isDotted name = false)
    (hignores : ∀ f, s.field? name = some f → f.Ignores name) (p : Progress) :
    s.FieldAgrees (.finite e) (s.computeField (.finite e) p name).values name := by
  intro f hf
  have hname := (mem_of_field? hf).2
  rw [computeField, hf]
  simp only []
  cases hw : f.computedWrite? (.finite e) name p.values (p.values.at? f.name) with
  | none => exact hname ▸ Declaration.agrees_of_computedWrite?_eq_none hw
  | some w =>
    rw [Declaration.computedWrite?_eq_some hw, Progress.extend, Record.apply]
    have hcurrent : ∀ x, Record.at? (p.values.write name x) name = x := fun x ↦ by
      rw [write_of_not_isDotted hdot, at?_of_not_isDotted hdot, find?_put_self]
    rw [hcurrent]
    exact Declaration.agrees_of_computed he ((hignores f hf).at?_write _ _)

/-- A cell agrees when it has been computed. -/
theorem cellAgrees_computeCells (h : s.PlainNames) (he : 0 ≤ e.signed)
    (hlist : list ∈ outerListsOf s.fields) (hcell : column ∈ s.computedCells list)
    (hself : column.Ignores column.name)
    (hpath : column.Ignores (cellPath list.name index column.name)) (hp : p.values.Regular) :
    CellAgrees (.finite e) (computeCells (.finite e) list.name index [column] p).values list.name
      index column := by
  have hlistDot := h.of_mem_lists hlist
  have hdot := h column (mem_allFields_of_mem_computedCells hlist hcell)
  simp only [computeCells]
  split
  · rename_i hnone
    intro row hrow
    rw [hnone] at hrow
    cases hrow
  · rename_i row hrow
    cases hw : column.computedWrite? (.finite e) (cellPath list.name index column.name)
        (p.values.overlay row) (row.at? column.name) with
    | none =>
      intro row' hrow'
      obtain rfl : row = row' := Option.some.inj (hrow.symm.trans hrow')
      exact Declaration.agrees_of_computedWrite?_eq_none hw
    | some w =>
      intro row' hrow'
      rw [Declaration.computedWrite?_eq_some hw, Progress.extend, Record.apply] at hrow' ⊢
      rw [hp.rowAt?_write_cellPath hlistDot hdot hrow, if_pos rfl] at hrow'
      obtain rfl := Option.some.inj hrow'
      rw [at?_of_not_isDotted hdot, find?_put_self]
      exact Declaration.agrees_of_computed he (hpath.at?_overlay_write_put
        (hp.wellFormed.rowAt? hrow).ordered hself hdot _ _ _)

/-! ## Steps that keep agreement

To compute something else keeps it there, as long as that is ignored and lies apart. -/

/-- **A field stays in agreement when something is written that it ignores.** -/
theorem FieldAgrees.write (hagrees : s.FieldAgrees epsilon values name)
    (hapart : Apart name path) (hignores : ∀ f, s.field? name = some f → f.Ignores path)
    (x : Option Value) : s.FieldAgrees epsilon (values.write path x) name := by
  intro f hf
  rw [at?_write hapart]
  exact (hagrees f hf).congr ((hignores f hf).at?_write values x)

theorem FieldAgrees.computeField {other : String} (hagrees : s.FieldAgrees epsilon p.values name)
    (hapart : Apart name other)
    (hignores : ∀ f, s.field? name = some f → f.Ignores other) :
    s.FieldAgrees epsilon (s.computeField epsilon p other).values name := by
  rw [Schema.computeField]
  split
  · refine extend_induction (P := fun p ↦ s.FieldAgrees epsilon p.values name) hagrees
      fun w hw ↦ ?_
    rw [Declaration.computedWrite?_eq_some hw]
    exact hagrees.write hapart hignores _
  · exact hagrees

/-- **A cell stays in agreement when another one is written that it ignores**, in another list,
another row, or another column. -/
theorem CellAgrees.write_cellPath {other written : Field} {row : Record} {otherIndex : Nat}
    (h : s.PlainNames) (hother : other ∈ outerListsOf s.fields) (hcolumn : column ∈ s.allFields)
    (hlist : list ∈ outerListsOf s.fields) (hwritten : isDotted written.name = false)
    (hvalues : values.Regular) (hrow : values.rowAt? list.name index = some row)
    (hignores : column.Ignores (cellPath list.name index written.name))
    (hapart : other.name ≠ list.name ∨ otherIndex ≠ index ∨
      (column.name ≠ written.name ∧ column.Ignores written.name))
    (hagrees : CellAgrees epsilon values other.name otherIndex column) (x : Option Value) :
    CellAgrees epsilon (values.write (cellPath list.name index written.name) x) other.name
      otherIndex column := by
  have hlistDot := h.of_mem_lists hlist
  have hdot := h column hcolumn
  -- a row that is as it was agrees as it did
  have hsame : ∀ row', values.rowAt? other.name otherIndex = some row' →
      column.Agrees epsilon ((values.write (cellPath list.name index written.name) x).overlay row')
        (row'.at? column.name) := fun row' hrow' ↦
    (hagrees row' hrow').congr (hignores.at?_overlay_write
      (hvalues.wellFormed.rowAt? hrow').ordered values x)
  intro row' hrow'
  by_cases hne : other.name = list.name
  · rw [hne, hvalues.rowAt?_write_cellPath hlistDot hwritten hrow] at hrow'
    split at hrow'
    · rename_i hindex
      obtain ⟨hname, hcolumnIgnores⟩ :=
        (hapart.resolve_left (absurd hne)).resolve_left (absurd hindex)
      obtain rfl := Option.some.inj hrow'
      rw [at?_of_not_isDotted hdot, find?_put_of_ne hname, ← at?_of_not_isDotted hdot]
      rw [hne, hindex] at hagrees
      exact (hagrees row hrow).congr (hignores.at?_overlay_write_put
        (hvalues.wellFormed.rowAt? hrow).ordered hcolumnIgnores hwritten values x x)
    · exact hsame row' (by rw [hne, hrow'])
  · have hfind := hvalues.plain.find?_write_cellPath hlistDot hne index written.name x
    rw [rowAt?_congr (h.of_mem_lists hother) hfind] at hrow'
    exact hsame row' hrow'

/-- Computing cells keeps others in agreement that ignore them. -/
theorem CellAgrees.computeCells {other : Field} {cells : List Field} {otherIndex : Nat}
    (hagrees : CellAgrees epsilon p.values other.name otherIndex column) (h : s.PlainNames)
    (hother : other ∈ outerListsOf s.fields) (hcolumn : column ∈ s.allFields)
    (hlist : list ∈ outerListsOf s.fields) (hcells : ∀ c ∈ cells, c ∈ s.computedCells list)
    (hp : p.values.Regular)
    (hignores : ∀ c ∈ cells, column.Ignores (cellPath list.name index c.name))
    (hapart : other.name ≠ list.name ∨ otherIndex ≠ index ∨
      ∀ c ∈ cells, column.name ≠ c.name ∧ column.Ignores c.name) :
    CellAgrees epsilon (computeCells epsilon list.name index cells p).values other.name
      otherIndex column := by
  refine (computeCells_induction (P := fun p ↦ p.values.Regular ∧
    CellAgrees epsilon p.values other.name otherIndex column) ⟨hp, hagrees⟩
    fun p c row w hp hc hrow hw ↦ ?_).2
  refine ⟨hp.1.apply_of_computes (.cell hlist (hcells c hc) hrow hw), ?_⟩
  have hdot := h c (mem_allFields_of_mem_computedCells hlist (hcells c hc))
  rw [Declaration.computedWrite?_eq_some hw]
  exact hp.2.write_cellPath h hother hcolumn hlist hdot hp.1 hrow (hignores c hc)
    (hapart.imp_right fun hapart ↦ hapart.imp_right fun hapart ↦ hapart c hc) _

/-- Computing a list keeps the cells of others in agreement that ignore it. -/
theorem CellAgrees.computeRows {other : Field} {otherIndex : Nat}
    (hagrees : CellAgrees epsilon p.values other.name otherIndex column) (h : s.PlainNames)
    (hother : other ∈ outerListsOf s.fields) (hcolumn : column ∈ s.allFields)
    (hlist : list ∈ outerListsOf s.fields) (hp : p.values.Regular)
    (hignores : ∀ c ∈ s.computedCells list, ∀ index,
      column.Ignores (cellPath list.name index c.name)) (hne : other.name ≠ list.name) :
    CellAgrees epsilon (s.computeRows epsilon p list).values other.name otherIndex column := by
  refine (computeRows_induction (P := fun p ↦ p.values.Regular ∧
    CellAgrees epsilon p.values other.name otherIndex column) ⟨hp, hagrees⟩
    fun p i c row w hp hc hrow hw ↦ ?_).2
  refine ⟨hp.1.apply_of_computes (.cell hlist hc hrow hw), ?_⟩
  have hdot := h c (mem_allFields_of_mem_computedCells hlist hc)
  rw [Declaration.computedWrite?_eq_some hw]
  exact hp.2.write_cellPath h hother hcolumn hlist hdot hp.1 hrow (hignores c hc i) (.inl hne) _

/-- Computing a list keeps the fields of the form in agreement that ignore it. -/
theorem FieldAgrees.computeRows (hagrees : s.FieldAgrees epsilon p.values name)
    (h : s.PlainNames) (hlist : list ∈ outerListsOf s.fields) (hdot : isDotted name = false)
    (hne : list.name ≠ name) (hp : p.values.Regular)
    (hignores : ∀ f, s.field? name = some f → ∀ c ∈ s.computedCells list, ∀ index,
      f.Ignores (cellPath list.name index c.name)) :
    s.FieldAgrees epsilon (s.computeRows epsilon p list).values name := by
  refine (computeRows_induction (P := fun p ↦ p.values.Regular ∧
    s.FieldAgrees epsilon p.values name) ⟨hp, hagrees⟩ fun p i c row w hp hc hrow hw ↦
      ⟨hp.1.apply_of_computes (.cell hlist hc hrow hw), ?_⟩).2
  have hapart : Apart name (cellPath list.name i c.name) :=
    apart_of_head_ne (segments_of_not_isDotted hdot)
      (segments_cellPath (h.of_mem_lists hlist) ..) (Ne.symm hne)
  rw [Declaration.computedWrite?_eq_some hw]
  exact hp.2.write hapart (fun f hf ↦ hignores f hf c hc i) _

/-! ## A pass establishes agreement

With both kinds of steps a run of them is done by `foldl_establishes`: over the cells of a row, over
the rows of a list, over the fields of the form, and at last over the lists. -/

/-- Computing cells one after the other is computing each by itself. -/
theorem computeCells_eq_foldl (epsilon : Binary64) (listName : String) (index : Nat)
    (cells : List Field) (p : Progress) : computeCells epsilon listName index cells p =
      cells.foldl (fun p c ↦ computeCells epsilon listName index [c] p) p := by
  induction cells generalizing p with
  | nil => rfl
  | cons c cells ih =>
    rw [List.foldl_cons, ← ih, computeCells]
    simp only [computeCells]
    split
    · rename_i hnone
      -- without the row nothing more is computed
      cases cells with
      | nil => rfl
      | cons c' cells => simp only [computeCells, hnone]
    · rfl

/-- Computed cells of a list, each of which neither is nor reads a later one. -/
theorem InOrder.pairwise_computedCells (h : s.InOrder) (list : Field) :
    (s.computedCells list).Pairwise fun c d ↦ c.name ≠ d.name ∧ s.Avoids c.name d.name := by
  refine List.Pairwise.filterMap _ (fun a b hab c hc d hd ↦ ?_) h
  have hca := List.find?_some hc
  have hdb := List.find?_some hd
  rw [beq_iff_eq] at hca hdb
  rw [hca, hdb]
  exact hab

theorem regular_computeCells (hlist : list ∈ outerListsOf s.fields) {cells : List Field}
    (hcells : ∀ c ∈ cells, c ∈ s.computedCells list) (hp : p.values.Regular) :
    (computeCells epsilon list.name index cells p).values.Regular :=
  computeCells_induction (P := fun p ↦ p.values.Regular) hp fun _ c _ _ hp hc hrow hw ↦
    hp.apply_of_computes (.cell hlist (hcells c hc) hrow hw)

theorem regular_computeRows (hlist : list ∈ outerListsOf s.fields) (hp : p.values.Regular) :
    (s.computeRows epsilon p list).values.Regular :=
  computeRows_induction (P := fun p ↦ p.values.Regular) hp fun _ _ _ _ _ hp hc hrow hw ↦
    hp.apply_of_computes (.cell hlist hc hrow hw)

/-- **The cells of a row agree** when all of them have been computed, if they look back. -/
theorem cellsAgree_computeCells (hs : ofFields limit fs = .ok s) (h : s.Replayable)
    (he : 0 ≤ e.signed) (hlist : list ∈ outerListsOf s.fields) (hp : p.values.Regular)
    (index : Nat) : ∀ c ∈ s.computedCells list, s.LooksBack c [list] → CellAgrees (.finite e)
      (computeCells (.finite e) list.name index (s.computedCells list) p).values list.name index
      c := by
  have hsingle : ∀ c ∈ s.computedCells list, ∀ d ∈ [c], d ∈ s.computedCells list :=
    fun c hc d hd ↦ List.mem_singleton.1 hd ▸ hc
  have hmem : ∀ c ∈ s.computedCells list, c ∈ s.allFields := fun c hc ↦
    mem_allFields_of_mem_computedCells hlist hc
  have hignores : ∀ c ∈ s.computedCells list, ∀ d ∈ s.computedCells list,
      s.LooksBack c [list] → s.Avoids c.name d.name → c.Ignores d.name :=
    fun c hc d hd hback havoids ↦
    hback.ignores (h.distinct.field?_eq (hmem c hc)) havoids (mem_computedCells hd).2
      (h.plain d (hmem d hd))
  rw [computeCells_eq_foldl]
  refine foldl_establishes (fun p : Progress ↦ p.values.Regular)
    (fun c p ↦ s.LooksBack c [list] → CellAgrees (.finite e) p.values list.name index c)
    (fun c hc p hp ↦ regular_computeCells hlist (hsingle c hc) hp)
    (fun c hc p hp hback ↦ cellAgrees_computeCells h.plain he hlist hc
      (hignores c hc c hc hback (avoids_self hs (mem_computedCells hc).2))
      (hback.cells list List.mem_cons_self c hc index) hp) ?_ hp
  refine ((inOrder_of_ofFields hs).pairwise_computedCells list).imp_of_mem
    fun {c d} hc hd hcd p hp hagrees hback ↦ ?_
  refine (hagrees hback).computeCells h.plain hlist (hmem c hc) hlist (hsingle d hd) hp
    (fun d' hd' ↦ hback.cells list List.mem_cons_self d' (hsingle d hd d' hd') index)
    (.inr (.inr fun d' hd' ↦ ?_))
  obtain rfl := List.mem_singleton.1 hd'
  exact ⟨hcd.1, hignores c hc d' hd hback hcd.2⟩

/-- **The cells of a list agree** when its rows have been computed, if they look back. -/
theorem cellsAgree_computeRows (hs : ofFields limit fs = .ok s) (h : s.Replayable)
    (he : 0 ≤ e.signed) (hlist : list ∈ outerListsOf s.fields) (hp : p.values.Regular) :
    ∀ c ∈ s.computedCells list, s.LooksBack c [list] → ∀ index, CellAgrees (.finite e)
      (s.computeRows (.finite e) p list).values list.name index c := by
  have hdot := h.plain.of_mem_lists hlist
  -- no row is added
  have hbound : ∀ index row, (s.computeRows (.finite e) p list).values.rowAt? list.name index =
      some row → index < p.values.rowCount list.name := by
    refine (computeRows_induction (P := fun q ↦ q.values.Regular ∧ ∀ index row,
      q.values.rowAt? list.name index = some row → index < p.values.rowCount list.name)
      ⟨hp, fun index row hrow ↦ Record.lt_rowCount hdot hrow⟩
      fun q i c row w hq hc hrow hw ↦
        ⟨hq.1.apply_of_computes (.cell hlist hc hrow hw), fun index row' hrow' ↦ ?_⟩).2
    rw [Declaration.computedWrite?_eq_some hw, Progress.extend, Record.apply,
      hq.1.rowAt?_write_cellPath hdot (h.plain c (mem_allFields_of_mem_computedCells hlist hc))
        hrow] at hrow'
    split at hrow'
    · rename_i hindex
      exact hq.2 index row (hindex ▸ hrow)
    · exact hq.2 index row' hrow'
  intro c hc hback index
  by_cases hindex : index < p.values.rowCount list.name
  · have hne : (s.computedCells list).isEmpty = false := by
      rw [List.isEmpty_eq_false_iff]
      exact List.ne_nil_of_mem hc
    rw [computeRows, hne]
    refine foldl_establishes (fun p : Progress ↦ p.values.Regular)
      (fun i p ↦ CellAgrees (.finite e) p.values list.name i c)
      (fun i _ p hp ↦ regular_computeCells hlist (fun _ ↦ id) hp)
      (fun i _ p hp ↦ cellsAgree_computeCells hs h he hlist hp i c hc hback) ?_ hp index
      (List.mem_range.2 hindex)
    refine List.Pairwise.imp (fun {i j} hij p hp hagrees ↦ ?_) List.nodup_range
    exact hagrees.computeCells h.plain hlist (mem_allFields_of_mem_computedCells hlist hc) hlist
      (fun _ ↦ id) hp (fun d hd ↦ hback.cells list List.mem_cons_self d hd j) (.inr (.inl hij))
  · exact fun row hrow ↦ absurd (hbound index row hrow) hindex

/-- **The fields of the form agree** when they have been computed in their order, if they take no
members of what is computed. -/
theorem fieldsAgree_computeFields (hs : ofFields limit fs = .ok s) (h : s.PlainNames)
    (he : 0 ≤ e.signed) (hvalues : values.Regular) :
    let form := s.computeOrder.filter fun name ↦ !s.rowNames.contains name
    let first : Progress := form.foldl (s.computeField (.finite e)) ⟨values, []⟩
    first.values.Regular ∧ ∀ name ∈ form, ∀ f, s.field? name = some f → s.LooksBack f [] →
      s.FieldAgrees (.finite e) first.values name := by
  intro form first
  have hform : ∀ name ∈ form, name ∈ s.computeOrder ∧ name ∉ s.rowNames := fun name hname ↦
    ⟨(List.mem_filter.1 hname).1, by simpa using (List.mem_filter.1 hname).2⟩
  have hregular : ∀ name ∈ form, ∀ p : Progress, p.values.Regular →
      (s.computeField (.finite e) p name).values.Regular := fun name hname p hp ↦
    computeField_induction (P := fun p ↦ p.values.Regular) hp (hform name hname).1
      (hform name hname).2 fun _ _ hp hw ↦ hp.apply_of_computes hw
  -- who looks back ignores what it avoids
  have hignores : ∀ {a b f}, s.field? a = some f → s.LooksBack f [] → b ∈ s.computeOrder →
      isDotted b = false → s.Avoids a b → ∀ g, s.field? a = some g → g.Ignores b := by
    intro a b f hf hback hb hdot havoids g hg
    obtain rfl := Option.some.inj (hf.symm.trans hg)
    exact hback.ignores hf havoids hb hdot
  refine ⟨List.foldlRecOn (motive := fun p : Progress ↦ p.values.Regular) form _ hvalues
    fun p hp name hname ↦ hregular name hname p hp, ?_⟩
  refine foldl_establishes (fun p : Progress ↦ p.values.Regular)
    (fun name p ↦ ∀ f, s.field? name = some f → s.LooksBack f [] →
      s.FieldAgrees (.finite e) p.values name) hregular
    (fun name hname p hp f hf hback ↦ ?_) ?_ hvalues
  · have hdot := h.of_field? hf
    have hcomputed := (hform name hname).1
    exact fieldAgrees_computeField he hdot
      (hignores hf hback hcomputed hdot (avoids_self hs hcomputed)) p
  · refine ((inOrder_of_ofFields hs).filter _).imp_of_mem
      fun {a b} _ hb hab p hp hagrees f hf hback ↦ ?_
    have hb := (hform b hb).1
    exact (hagrees f hf hback).computeField
      (apart_of_ne (h.of_field? hf) (h.of_mem_computeOrder hs hb) hab.1)
      (hignores hf hback hb (h.of_mem_computeOrder hs hb) hab.2)

/-- The values stay regular while lists are computed. -/
theorem regular_computeLists {lists : List Field} (hlists : lists ⊆ outerListsOf s.fields)
    (hp : p.values.Regular) : (lists.foldl (s.computeRows epsilon) p).values.Regular :=
  List.foldlRecOn (motive := fun p : Progress ↦ p.values.Regular) _ _ hp fun _ hp _ hlist ↦
    regular_computeRows (hlists hlist) hp

/-- **A field of the form that looks back agrees after a pass.** -/
theorem fieldAgrees_computePass (hs : ofFields limit fs = .ok s) (h : s.Replayable)
    (he : 0 ≤ e.signed) (hvalues : values.Regular) (hname : name ∈ s.computeOrder)
    (hform : name ∉ s.rowNames) (hf : s.field? name = some f)
    (hback : s.LooksBack f (outerListsOf s.fields)) :
    s.FieldAgrees (.finite e) (s.computePass (.finite e) values).values name := by
  obtain ⟨hfirst, hagrees⟩ := fieldsAgree_computeFields hs h.plain he hvalues
  have hagrees := hagrees name (List.mem_filter.2 ⟨hname, by simpa using hform⟩) f hf
    (hback.of_subset (List.nil_subset _))
  rw [computePass]
  refine (List.foldlRecOn (motive := fun p : Progress ↦ p.values.Regular ∧
    s.FieldAgrees (.finite e) p.values name) _ _ ⟨hfirst, hagrees⟩ fun p hp list hlist ↦ ?_).2
  refine ⟨regular_computeRows hlist hp.1, hp.2.computeRows h.plain hlist (h.plain.of_field? hf)
    (Ne.symm (h.ne_list_of_mem_computeOrder hs hname hlist)) hp.1 fun g hg ↦ ?_⟩
  obtain rfl := Option.some.inj (hf.symm.trans hg)
  exact hback.cells list hlist

/-- **A cell that looks back from its own list and those behind it agrees after a pass.** -/
theorem cellAgrees_computePass (hs : ofFields limit fs = .ok s) (h : s.Replayable)
    (he : 0 ≤ e.signed) (hvalues : values.Regular) {before after : List Field}
    (hlists : outerListsOf s.fields = before ++ list :: after)
    (hcolumn : column ∈ s.computedCells list) (hback : s.LooksBack column (list :: after))
    (index : Nat) :
    CellAgrees (.finite e) (s.computePass (.finite e) values).values list.name index column := by
  have hlist : list ∈ outerListsOf s.fields := by simp [hlists]
  have hbefore : before ⊆ outerListsOf s.fields := by simp [hlists]
  have hafter : after ⊆ outerListsOf s.fields := by
    rw [hlists]
    exact fun g hg ↦ List.mem_append_right _ (List.mem_cons_of_mem _ hg)
  have hne : ∀ other ∈ after, list.name ≠ other.name := by
    have hpairwise := h.distinct.pairwise_lists
    rw [hlists, List.pairwise_append, List.pairwise_cons] at hpairwise
    exact hpairwise.2.1.1
  have hregular : ∀ p : Progress, p.values.Regular →
      (before.foldl (s.computeRows (.finite e)) p).values.Regular := fun p ↦
    regular_computeLists hbefore
  have hp := hregular _ (fieldsAgree_computeFields hs h.plain he hvalues).1
  rw [computePass, hlists, List.foldl_append, List.foldl_cons]
  have hagrees := cellsAgree_computeRows hs h he hlist hp column hcolumn
    (hback.of_subset (by simp)) index
  refine (List.foldlRecOn (motive := fun p : Progress ↦ p.values.Regular ∧
    CellAgrees (.finite e) p.values list.name index column) _ _
    ⟨regular_computeRows hlist hp, hagrees⟩ fun p hp other hother ↦ ?_).2
  exact ⟨regular_computeRows (hafter hother) hp.1, hp.2.computeRows h.plain hlist
    (mem_allFields_of_mem_computedCells hlist hcolumn) (hafter hother) hp.1
    (hback.cells other (List.mem_cons_of_mem _ hother)) (hne other hother)⟩

/-- **A pass leaves everything in agreement**, in a steady schema. -/
theorem agreement_computePass (hs : ofFields limit fs = .ok s) (h : s.Steady)
    (he : 0 ≤ e.signed) (hvalues : values.Regular) :
    s.Agreement (.finite e) (s.computePass (.finite e) values).values where
  fields name hname hform := by
    obtain ⟨f, hf, rfl, -⟩ := (mem_computeOrder_iff hs).1 hname
    exact fieldAgrees_computePass hs h.replayable he hvalues hname hform (h.distinct.field?_eq hf)
      (h.looksBack hf)
  cells list hlist column hcolumn index := by
    obtain ⟨before, after, hlists⟩ := List.append_of_mem hlist
    refine cellAgrees_computePass hs h.replayable he hvalues hlists hcolumn ?_ index
    refine (h.looksBack (mem_allFields_of_mem_computedCells hlist hcolumn)).of_subset ?_
    rw [hlists]
    exact List.subset_append_right _ _

end

end Schema

end ReactiveForm
