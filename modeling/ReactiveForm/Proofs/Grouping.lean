import Mathlib
import ReactiveForm.Form.Submission
import ReactiveForm.Proofs.Checks
import ReactiveForm.Proofs.Steps

/-!
# Groups that only hold fields together

A group without conditions, without a default value and without anything else of its own does
nothing but hold other fields together (`Field.IsPlainGroup`).  To *dissolve* it is to put its
columns in its place (`Dissolves`), be it at the top of a form, in another group or among the
columns of a list.  `Schema.dissolve_group` says that nothing changes thereby except that the group
has no state any more.

Everything that reads the tree of the fields flattens groups by itself: validation once for the form
and once for its rows, submission, and recomputation, which has to find the lists of a form and the
cells of a row.  For each of these there is one lemma on `Dissolves`, by induction on where the
group is.  What is read off the fields one by one, without regard to the tree, is a matter of their
declarations in order, among which that of the group has nothing to say (`declarations_dissolve`).

Recomputing needs more than one such reading.  `Schema.Alike` collects all that it makes use of, and
two schemas that are alike settle alike (`Schema.Alike.settling_eq`).
-/

set_option autoImplicit false
namespace ReactiveForm

variable {g : Field} {fs fs' : List Field} {m : Criteria} {name : String}

/-! ## Plain groups -/

/-- **A group that only holds other fields together**: it is always shown, and there is nothing else
to be said of it but how it looks. -/
structure Field.IsPlainGroup (g : Field) : Prop where
  kind : g.kind = .group
  conditions : g.conditions = []
  dependencies : g.dependencies = []
  computation : g.computation = none
  defaultValue : g.defaultValue = none
  hidden : g.hidden = false
  noSubmit : g.noSubmit = false
  clearOnChange : g.clearOnChange = false

/-- **Fields of which one gives way to its columns**, at whatever depth. -/
inductive Dissolves (g : Field) : List Field → List Field → Prop
  | here (after : List Field) : Dissolves g (g :: after) (g.columns ++ after)
  | inside (d : Declaration) {columns columns' : List Field} (after : List Field)
      (h : Dissolves g columns columns') :
      Dissolves g (⟨d, columns⟩ :: after) (⟨d, columns'⟩ :: after)
  | behind (f : Field) {fs fs' : List Field} (h : Dissolves g fs fs') :
      Dissolves g (f :: fs) (f :: fs')

namespace Field.IsPlainGroup

/-- A plain group is always shown: its columns are checked with nothing in the way. -/
theorem isVisible (hg : g.IsPlainGroup) (values : Record) : g.isVisible values = true := by
  have hconditions := hg.conditions
  simp only [Declaration.conditions, List.append_eq_nil_iff, Option.toList_eq_nil_iff]
    at hconditions
  rw [Declaration.isVisible, hg.hidden, hg.kind, hconditions.1.1]
  rfl

theorem reactsTo (hg : g.IsPlainGroup) : g.reactsTo = [] := by
  rw [Declaration.reactsTo, hg.conditions, hg.dependencies, hg.computation]
  rfl

theorem ne_list (hg : g.IsPlainGroup) : g.kind ≠ .list := by simp [hg.kind]

end Field.IsPlainGroup

/-! ## Validation

The checks of a form go through its fields in order, and where a group is they go through its
columns in its place.  So do those of a row, which are the same with another way of naming the paths
(`failuresAmong`). -/

section

variable (gs : List Field) (locate : String → String) (source scope : Record)

theorem failuresAmong_append : failuresAmong m locate source scope (fs ++ gs) =
    failuresAmong m locate source scope fs ++ failuresAmong m locate source scope gs := by
  induction fs with
  | nil => simp [failuresAmong]
  | cons f fs ih => rw [List.cons_append, failuresAmong, failuresAmong, ih, List.append_assoc]

theorem Field.IsPlainGroup.failuresAmong (hg : g.IsPlainGroup) :
    g.failuresAmong m locate source scope =
      ReactiveForm.failuresAmong m locate source scope g.columns := by
  have hvisible := hg.isVisible scope
  obtain ⟨d, columns⟩ := g
  rw [Field.failuresAmong, hvisible, if_pos hg.kind]
  rfl

end

/-- **A plain group is checked as the fields in it.** -/
theorem failuresAmong_dissolve (h : Dissolves g fs fs') (hg : g.IsPlainGroup) :
    ∀ (locate : String → String) (source scope : Record),
      failuresAmong m locate source scope fs = failuresAmong m locate source scope fs' := by
  induction h with
  | here after =>
    intro locate source scope
    rw [failuresAmong, failuresAmong_append, hg.failuresAmong]
  | @inside d columns columns' after _ ih =>
    intro locate source scope
    -- a list reads its columns once more in each row
    have hrows : ∀ value required,
        d.failuresAt m (rowFailures m columns) (locate d.name) value required scope =
          d.failuresAt m (rowFailures m columns') (locate d.name) value required scope := by
      intro value required
      simp only [Declaration.failuresAt_eq, rowFailures_eq, ih]
    rw [failuresAmong, failuresAmong, Field.failuresAmong, Field.failuresAmong, ih, hrows]
  | behind f _ ih =>
    intro locate source scope
    rw [failuresAmong, failuresAmong, ih]

/-! ## Submission

What is submitted is put together from the fields in the same way. -/

section

variable (gs : List Field) (snapshot source : Record)

theorem submittedOf_append : submittedOf snapshot source (fs ++ gs) =
    submittedOf snapshot source fs ++ submittedOf snapshot source gs := by
  induction fs with
  | nil => simp [submittedOf]
  | cons f fs ih => rw [List.cons_append, submittedOf, submittedOf, ih, List.append_assoc]

theorem Field.IsPlainGroup.submitted (hg : g.IsPlainGroup) :
    g.submitted snapshot source = submittedOf snapshot source g.columns := by
  obtain ⟨d, columns⟩ := g
  have hnoSubmit : d.noSubmit = false := hg.noSubmit
  rw [Field.submitted, hnoSubmit, if_neg Bool.false_ne_true, if_pos hg.kind]

end

/-- **A plain group is submitted as the fields in it.** -/
theorem submittedOf_dissolve (h : Dissolves g fs fs') (hg : g.IsPlainGroup) (snapshot : Record) :
    ∀ source : Record, submittedOf snapshot source fs = submittedOf snapshot source fs' := by
  induction h with
  | here after =>
    intro source
    rw [submittedOf, submittedOf_append, hg.submitted]
  | inside d after _ ih =>
    intro source
    simp only [submittedOf, Field.submitted, ih]
  | behind f _ ih =>
    intro source
    rw [submittedOf, submittedOf, ih]

/-! ## Declarations

The other tables of a schema are made from the fields one by one, wherever they are.  They are
functions of the list of declarations (`defaults_eq`, `dependents_eq`, `states_eq`, …), and
dissolving a group takes a single declaration out of this list. -/

/-- **The declarations of some fields** and of those inside them, in order. -/
def declarations (fs : List Field) : List Declaration := (preorder fs).map (·.toDeclaration)

theorem declarations_cons (d : Declaration) (columns fs : List Field) :
    declarations (⟨d, columns⟩ :: fs) = d :: (declarations columns ++ declarations fs) := by
  rw [declarations, preorder, Field.subtree, List.cons_append, List.map_cons, List.map_append]
  rfl

theorem declarations_append (fs gs : List Field) :
    declarations (fs ++ gs) = declarations fs ++ declarations gs := by
  rw [declarations, preorder_append, List.map_append]
  rfl

theorem names_declarations (fs : List Field) :
    (declarations fs).map (·.name) = (preorder fs).map (·.name) := by
  rw [declarations, List.map_map]
  rfl

/-- **Dissolving a group** takes away its own declaration and no other. -/
theorem declarations_dissolve (h : Dissolves g fs fs') :
    ∃ before after, declarations fs = before ++ g.toDeclaration :: after ∧
      declarations fs' = before ++ after := by
  induction h with
  | here after =>
    obtain ⟨d, columns⟩ := g
    refine ⟨[], declarations (columns ++ after), ?_, rfl⟩
    rw [declarations_cons, declarations_append, List.nil_append]
  | inside d after _ ih =>
    obtain ⟨before, behind, hfs, hfs'⟩ := ih
    refine ⟨d :: before, behind ++ declarations after, ?_, ?_⟩
    · rw [declarations_cons, hfs, List.append_assoc, List.cons_append, List.cons_append]
    · rw [declarations_cons, hfs', List.append_assoc, List.cons_append]
  | behind f _ ih =>
    obtain ⟨d, columns⟩ := f
    obtain ⟨before, behind, hfs, hfs'⟩ := ih
    refine ⟨d :: (declarations columns ++ before), behind, ?_, ?_⟩
    · rw [declarations_cons, hfs, List.cons_append, List.append_assoc]
    · rw [declarations_cons, hfs', List.cons_append, List.append_assoc]

theorem computeGraph_eq (fs : List Field) : computeGraph fs =
    Table.ofList ((declarations fs).filterMap fun d ↦
      d.computation.map fun c ↦ (d.name, Names.ofList c.inputs)) := by
  rw [computeGraph, declarations, List.filterMap_map]
  rfl

namespace Schema

variable {s t : Schema}

/-- The declaration with a name. -/
def declared? (s : Schema) (name : String) : Option Declaration :=
  (s.field? name).map (·.toDeclaration)

theorem declared?_eq (s : Schema) (name : String) : s.declared? name =
    (declarations s.fields).reverse.find? fun d ↦ d.name == name := by
  rw [declared?, declarations, ← List.map_reverse, List.find?_map]
  rfl

theorem defaults_eq (s : Schema) : s.defaults =
    Table.ofList ((declarations s.fields).filterMap fun d ↦
      d.defaultValue.map fun v ↦ (d.name, v)) := by
  rw [defaults, declarations, List.filterMap_map]
  rfl

theorem dependents_eq (s : Schema) : s.dependents =
    (declarations s.fields).foldl
      (fun (g : Graph) d ↦ d.reactsTo.foldl (fun g path ↦ g.connect path d.name) g) [] := by
  rw [dependents, declarations, List.foldl_map]
  rfl

theorem states_eq (s : Schema) (values : Record) (flags : FormFlags) : s.states values flags =
    Table.ofList ((declarations s.fields).map fun d ↦ (d.name, d.state values flags)) := by
  rw [states, declarations, List.map_map]
  rfl

theorem clearable_eq (s : Schema) : s.clearable =
    ((declarations s.fields).map (·.name)).filter fun name ↦
      (s.declared? name).any (·.clearOnChange) := by
  rw [clearable, declarations, List.map_map]
  refine List.filter_congr fun name _ ↦ ?_
  rw [declared?, Option.any_map]

/-! ## One declaration more

Two schemas of which the first has one declaration more than the second.  Where the two are asked
for another name they answer the same, and where the declaration has nothing to say they agree. -/

section

variable {d : Declaration} {before after : List Declaration}
  (hs : declarations s.fields = before ++ d :: after)
  (ht : declarations t.fields = before ++ after)

include hs ht

/-- Another name has the declaration that it had. -/
theorem declared?_of_ne (hname : name ≠ d.name) : s.declared? name = t.declared? name := by
  rw [declared?_eq, declared?_eq, hs, ht, List.reverse_append, List.reverse_append,
    List.reverse_cons, List.find?_append, List.find?_append, List.find?_append,
    List.find?_singleton, if_neg (by simpa using hname.symm), Option.or_none]

/-- The name of the declaration that is added means this declaration. -/
theorem declared?_self (hname : ∀ e ∈ declarations t.fields, e.name ≠ d.name) :
    s.declared? d.name = some d := by
  -- the last declaration with a name counts, and none behind this one has its name
  have hafter : after.reverse.find? (fun e ↦ e.name == d.name) = none := by
    refine List.find?_eq_none.2 fun e he ↦ ?_
    have hmem : e ∈ declarations t.fields :=
      ht ▸ List.mem_append_right before (List.mem_reverse.1 he)
    simpa using hname e hmem
  rw [declared?_eq, hs, List.reverse_append, List.reverse_cons, List.append_assoc,
    List.find?_append, hafter, Option.none_or, List.singleton_append, List.find?_cons,
    beq_self_eq_true]

/-- A declaration that asks for no clearing adds nothing that is to be cleared. -/
theorem clearable_of_not_clearOnChange (hd : d.clearOnChange = false)
    (hname : ∀ e ∈ declarations t.fields, e.name ≠ d.name) : s.clearable = t.clearable := by
  have hself : (s.declared? d.name).any (·.clearOnChange) = false := by
    rw [declared?_self hs ht hname, Option.any_some, hd]
  have hothers : ∀ ds : List Declaration, ds ⊆ declarations t.fields →
      (ds.map (·.name)).filter (fun name ↦ (s.declared? name).any (·.clearOnChange)) =
        (ds.map (·.name)).filter fun name ↦ (t.declared? name).any (·.clearOnChange) := by
    intro ds hds
    refine List.filter_congr fun name hmem ↦ ?_
    obtain ⟨e, he, rfl⟩ := List.mem_map.1 hmem
    rw [declared?_of_ne hs ht (hname e (hds he))]
  have hbefore := hothers before (ht ▸ List.subset_append_left ..)
  have hafter := hothers after (ht ▸ List.subset_append_right ..)
  rw [clearable_eq, clearable_eq, hs, ht, List.map_append, List.map_append, List.map_cons,
    List.filter_append, List.filter_append, List.filter_cons_of_neg (by simpa using hself),
    hbefore, hafter]

/-- The states are the same but for that of the declaration. -/
theorem states_erase (hname : ∀ e ∈ declarations t.fields, e.name ≠ d.name) (values : Record)
    (flags : FormFlags) : (s.states values flags).erase d.name = t.states values flags := by
  have hothers : ∀ ds : List Declaration, ds ⊆ declarations t.fields →
      Table.erase (ds.map fun e ↦ (e.name, e.state values flags)) d.name =
        ds.map fun e ↦ (e.name, e.state values flags) := by
    intro ds hds
    refine List.filter_eq_self.2 fun x hx ↦ ?_
    obtain ⟨e, he, rfl⟩ := List.mem_map.1 hx
    simpa using hname e (hds he)
  have hbefore := hothers before (ht ▸ List.subset_append_left ..)
  have hafter := hothers after (ht ▸ List.subset_append_right ..)
  rw [states_eq, states_eq, hs, ht, Table.erase_ofList, List.map_append, List.map_append,
    List.map_cons, Table.erase, List.filter_append, List.filter_cons_of_neg (by simp)]
  rw [Table.erase] at hbefore hafter
  rw [hbefore, hafter]

end

end Schema

/-! ## Lists and their cells

A recomputation needs the tree again, to find the lists and in each of them the cells.  It does not
look into the columns of a list for further lists, nor into a cell. -/

theorem cellsOf_append (fs gs : List Field) : cellsOf (fs ++ gs) = cellsOf fs ++ cellsOf gs := by
  induction fs with
  | nil => rfl
  | cons f fs ih => rw [List.cons_append, cellsOf, cellsOf, ih, List.append_assoc]

/-- **The cells of a row** keep their declarations. -/
theorem cellsOf_dissolve (h : Dissolves g fs fs') (hg : g.IsPlainGroup) :
    (cellsOf fs).map (·.toDeclaration) = (cellsOf fs').map (·.toDeclaration) := by
  induction h with
  | here after =>
    obtain ⟨d, columns⟩ := g
    rw [cellsOf, Field.cells, if_pos hg.kind, cellsOf_append]
  | inside d after _ ih =>
    rw [cellsOf, cellsOf, Field.cells, Field.cells, List.map_append, List.map_append]
    split
    · rw [ih]
    · rfl
  | behind f _ ih => rw [cellsOf, cellsOf, List.map_append, List.map_append, ih]

/-- What recomputing makes use of in a list: its declaration and those of its cells. -/
def Field.outline (list : Field) : Declaration × List Declaration :=
  (list.toDeclaration, (cellsOf list.columns).map (·.toDeclaration))

/-- **The lists of a form** keep their declarations and those of their cells. -/
theorem outerListsOf_dissolve (h : Dissolves g fs fs') (hg : g.IsPlainGroup) :
    (outerListsOf fs).map Field.outline = (outerListsOf fs').map Field.outline := by
  induction h with
  | here after =>
    obtain ⟨d, columns⟩ := g
    rw [outerListsOf, Field.outerLists, if_neg hg.ne_list, if_pos hg.kind, outerListsOf_append]
  | inside d after h ih =>
    rw [outerListsOf, outerListsOf, Field.outerLists, Field.outerLists, List.map_append,
      List.map_append]
    split
    · rw [List.map_singleton, List.map_singleton, Field.outline, Field.outline,
        cellsOf_dissolve h hg]
    · split
      · rw [ih]
      · rfl
  | behind f _ ih => rw [outerListsOf, outerListsOf, List.map_append, List.map_append, ih]

/-- **The names of columns of lists** stay, but for that of the group. -/
theorem mem_rowNamesOf_dissolve (h : Dissolves g fs fs') (hg : g.IsPlainGroup)
    (hname : name ≠ g.name) :
    ∀ inList : Bool, name ∈ rowNamesOf inList fs ↔ name ∈ rowNamesOf inList fs' := by
  induction h with
  | here after =>
    intro inList
    obtain ⟨d, columns⟩ := g
    have hlist : (inList || decide (d.kind = .list)) = inList := by
      rw [decide_eq_false hg.ne_list, Bool.or_false]
    rw [rowNamesOf, Field.rowNames, hlist, rowNamesOf_append]
    cases inList <;> simp [hname]
  | inside d after _ ih =>
    intro inList
    simp only [rowNamesOf, Field.rowNames, List.mem_append, ih]
  | behind f _ ih =>
    intro inList
    simp only [rowNamesOf, List.mem_append, ih]

/-! ## Recomputing

All that a recomputation reads of a schema is said by `Schema.Alike`, so for each of its steps there
is a lemma that two schemas alike take the same step, and by induction on the rounds they end the
same. -/

/-- Cells with the same declarations are computed alike. -/
theorem computeCells_congr {epsilon : Binary64} {list : String} {index : Nat} :
    ∀ {cells cells' : List Field}, cells.map (·.toDeclaration) = cells'.map (·.toDeclaration) →
      ∀ p : Progress, computeCells epsilon list index cells p =
        computeCells epsilon list index cells' p
  | [], [], _, _ => rfl
  | [], _ :: _, h, _ => by simp at h
  | _ :: _, [], h, _ => by simp at h
  | c :: cells, c' :: cells', h, p => by
    obtain ⟨hc, hcells⟩ := List.cons.inj h
    rw [computeCells, computeCells, show c.toDeclaration = c'.toDeclaration from hc]
    split
    · rfl
    · exact computeCells_congr hcells _

namespace Schema

variable {s t : Schema} {epsilon : Binary64} {values : Record} {sources kept : List String}

/-- **Two schemas that recompute alike**: they compute and clear the same fields in the same order,
and have lists with the same cells. -/
structure Alike (s t : Schema) : Prop where
  order : s.computeOrder = t.computeOrder
  form : s.computeOrder.filter (fun name ↦ !s.rowNames.contains name) =
    t.computeOrder.filter fun name ↦ !t.rowNames.contains name
  lists : (outerListsOf s.fields).map Field.outline = (outerListsOf t.fields).map Field.outline
  dependents : s.dependents = t.dependents
  clearable : ∀ name, name ∈ s.clearable ↔ name ∈ t.clearable
  declared : ∀ name, name ∈ t.computeOrder ∨ name ∈ t.clearable →
    s.declared? name = t.declared? name

namespace Alike

theorem computeField_eq (h : s.Alike t) {name : String} (hname : name ∈ t.computeOrder)
    (p : Progress) : s.computeField epsilon p name = t.computeField epsilon p name := by
  have hdeclared := h.declared name (.inl hname)
  rw [declared?, declared?] at hdeclared
  rw [computeField, computeField]
  cases hs : s.field? name <;> cases ht : t.field? name <;> simp_all

theorem computedCells_eq (h : s.Alike t) {list list' : Field}
    (hlist : list.outline = list'.outline) :
    (s.computedCells list).map (·.toDeclaration) =
      (t.computedCells list').map (·.toDeclaration) := by
  have hcells : (cellsOf list.columns).map (·.toDeclaration) =
      (cellsOf list'.columns).map (·.toDeclaration) := congrArg Prod.snd hlist
  have hfind : ∀ (cells : List Field) (name : String),
      (cells.find? fun c ↦ c.name == name).map (·.toDeclaration) =
        (cells.map (·.toDeclaration)).find? fun d ↦ d.name == name := by
    intro cells name
    rw [List.find?_map]
    rfl
  rw [computedCells, computedCells, h.order, List.map_filterMap, List.map_filterMap]
  refine List.filterMap_congr fun name _ ↦ ?_
  rw [hfind, hfind, hcells]

/-- The rows of two lists with one outline are computed alike. -/
theorem computeRows_eq (h : s.Alike t) {list list' : Field} (hlist : list.outline = list'.outline)
    (p : Progress) : s.computeRows epsilon p list = t.computeRows epsilon p list' := by
  have hname : list.name = list'.name := congrArg (·.1.name) hlist
  have hcells := h.computedCells_eq hlist
  have hempty : (s.computedCells list).isEmpty = (t.computedCells list').isEmpty := by
    rw [← List.isEmpty_map, hcells, List.isEmpty_map]
  rw [computeRows, computeRows, hempty, hname]
  split
  · rfl
  · exact List.foldl_ext _ _ _ fun p index _ ↦ computeCells_congr hcells p

theorem foldl_computeRows_eq (h : s.Alike t) : ∀ {lists lists' : List Field},
    lists.map Field.outline = lists'.map Field.outline → ∀ p : Progress,
      lists.foldl (s.computeRows epsilon) p = lists'.foldl (t.computeRows epsilon) p
  | [], [], _, _ => rfl
  | [], _ :: _, hlists, _ => by simp at hlists
  | _ :: _, [], hlists, _ => by simp at hlists
  | list :: lists, list' :: lists', hlists, p => by
    obtain ⟨hlist, hlists⟩ := List.cons.inj hlists
    rw [List.foldl_cons, List.foldl_cons, h.computeRows_eq hlist]
    exact h.foldl_computeRows_eq hlists _

/-- A pass makes the same of the same values. -/
theorem computePass_eq (h : s.Alike t) (values : Record) :
    s.computePass epsilon values = t.computePass epsilon values := by
  have hfields : ∀ p : Progress,
      (t.computeOrder.filter fun name ↦ !t.rowNames.contains name).foldl
          (s.computeField epsilon) p =
        (t.computeOrder.filter fun name ↦ !t.rowNames.contains name).foldl
          (t.computeField epsilon) p := fun p ↦
    List.foldl_ext _ _ _ fun p name hname ↦ h.computeField_eq (List.mem_filter.1 hname).1 p
  rw [computePass, computePass, h.form, hfields]
  exact h.foldl_computeRows_eq h.lists _

theorem clearEach_eq (h : s.Alike t) : ∀ {names : List String}, names ⊆ t.clearable →
    ∀ p : Progress, s.clearEach names p = t.clearEach names p
  | [], _, _ => rfl
  | name :: names, hnames, p => by
    have hdeclared := h.declared name (.inr (hnames List.mem_cons_self))
    have hwrite : s.clearingWrite? p.values name = t.clearingWrite? p.values name := by
      have hmultiple : (s.field? name).any (·.multiple) = (t.field? name).any (·.multiple) := by
        have hany := congrArg (Option.any (·.multiple)) hdeclared
        rwa [declared?, declared?, Option.any_map, Option.any_map] at hany
      rw [clearingWrite?, clearingWrite?, hmultiple]
    rw [clearEach, clearEach, hwrite]
    exact h.clearEach_eq (List.subset_of_cons_subset hnames) _

/-- A round clears the same of the same values. -/
theorem clearRound_eq (h : s.Alike t) (values : Record) :
    s.clearRound sources kept values = t.clearRound sources kept values := by
  have htargets : s.clearTargets sources kept = t.clearTargets sources kept := by
    rw [clearTargets, clearTargets, h.dependents]
    refine List.filter_congr fun name _ ↦ ?_
    have hcontains : s.clearable.contains name = t.clearable.contains name := by
      rw [Bool.eq_iff_iff, List.contains_iff_mem, List.contains_iff_mem, h.clearable]
    rw [hcontains]
  have hclearable : t.clearTargets sources kept ⊆ t.clearable := by
    intro name hname
    have hkept := (List.mem_filter.1 hname).2
    rw [Bool.and_eq_true, List.contains_iff_mem] at hkept
    exact hkept.1
  rw [clearRound, clearRound, htargets, h.clearEach_eq hclearable]

/-- Two schemas that are alike go through the same rounds, so that nothing is ever different. -/
theorem settle_eq (h : s.Alike t) (epsilon : Binary64) (sources kept : List String)
    (st : Settling) : s.settle epsilon sources kept st = t.settle epsilon sources kept st := by
  let R (sources kept : List String) (st : Settling) (sources' kept' : List String)
      (st' : Settling) : Prop := sources = sources' ∧ kept = kept' ∧ st = st'
  have hinStep : ∃ sources₁ kept₁ sources₂ kept₂,
      R sources₁ kept₁ (s.settle epsilon sources kept st)
        sources₂ kept₂ (t.settle epsilon sources kept st) := by
    refine settle_in_step (R := R) ⟨rfl, rfl, rfl⟩ ?_ ?_
    · rintro sources kept st _ _ _ ⟨rfl, rfl, rfl⟩
      rw [h.clearRound_eq]
    · rintro sources kept st _ _ _ ⟨rfl, rfl, rfl⟩
      simp only [R, h.clearRound_eq, h.computePass_eq, and_self]
  obtain ⟨_, _, _, _, -, -, heq⟩ := hinStep
  exact heq

/-- **Schemas that are alike settle on the same values**, by the same writes. -/
theorem settling_eq (h : s.Alike t) (epsilon : Binary64) (previous : Option Record)
    (next : Record) : s.settling epsilon previous next = t.settling epsilon previous next := by
  have hchanged : s.changed previous next = t.changed previous next := by
    cases previous with
    | none => rfl
    | some previous => rw [changed, changed, h.dependents]
  rw [settling, settling, hchanged, h.computePass_eq, h.settle_eq]

end Alike

/-! ## Dissolving a group

It remains to put together what has been said of the single tables.  That no other field has the
name of the group is needed where a table goes by names. -/

variable {limit : Nat}

theorem name_ne_of_mem_declarations (hname : ∀ f ∈ t.allFields, f.name ≠ g.name) :
    ∀ d ∈ declarations t.fields, d.name ≠ g.name := by
  intro d hd
  obtain ⟨f, hf, rfl⟩ := List.mem_map.1 hd
  exact hname f hf

/-- A group that is not computed is nowhere in the graph of the computations. -/
theorem computeGraph_dissolve (h : Dissolves g fs fs') (hg : g.IsPlainGroup) :
    computeGraph fs = computeGraph fs' := by
  obtain ⟨before, after, hfs, hfs'⟩ := declarations_dissolve h
  rw [computeGraph_eq, computeGraph_eq, hfs, hfs', List.filterMap_append, List.filterMap_append,
    List.filterMap_cons_none (by rw [hg.computation]; rfl)]

/-- **A schema recomputes alike without a plain group** in it. -/
theorem alike_of_dissolves (hs : ofFields limit fs = .ok s) (ht : ofFields limit fs' = .ok t)
    (h : Dissolves g fs fs') (hg : g.IsPlainGroup) (hname : ∀ f ∈ t.allFields, f.name ≠ g.name) :
    s.Alike t := by
  have hcomputed : ∀ name ∈ t.computeOrder, name ≠ g.name := by
    intro name hmem
    obtain ⟨f, hf, rfl, -⟩ := (mem_computeOrder_iff ht).1 hmem
    exact hname f hf
  have hclearable : ∀ name ∈ t.clearable, name ≠ g.name := by
    intro name hmem
    obtain ⟨f, hf, rfl⟩ := List.mem_map.1 (List.mem_filter.1 hmem).1
    exact hname f hf
  have hnames := name_ne_of_mem_declarations hname
  obtain ⟨-, rfl, hsorder⟩ := ofFields_eq_ok_iff.1 hs
  obtain ⟨-, rfl, htorder⟩ := ofFields_eq_ok_iff.1 ht
  rw [computeGraph_dissolve h hg, htorder] at hsorder
  have horder : s.computeOrder = t.computeOrder := (Except.ok.inj hsorder).symm
  -- order, rows, lists, what leads where, what is to be cleared, and who is meant by a name
  obtain ⟨before, after, hsfields, htfields⟩ := declarations_dissolve h
  refine ⟨horder, ?_, outerListsOf_dissolve h hg, ?_, fun name ↦ ?_, ?_⟩
  · rw [horder]
    refine List.filter_congr fun name hmem ↦ ?_
    have hrow := mem_rowNamesOf_dissolve h hg (hcomputed name hmem) false
    rw [rowNames, rowNames, Bool.eq_iff_iff]
    simp [hrow]
  · rw [dependents_eq, dependents_eq, hsfields, htfields, List.foldl_append, List.foldl_append,
      List.foldl_cons, hg.reactsTo, List.foldl_nil]
  · rw [clearable_of_not_clearOnChange hsfields htfields hg.clearOnChange hnames]
  · rintro name (hmem | hmem)
    · exact declared?_of_ne hsfields htfields (hcomputed name hmem)
    · exact declared?_of_ne hsfields htfields (hclearable name hmem)

/-- **Nothing changes when a plain group gives way to its columns**, wherever it is, except that it
has no state any more. -/
theorem dissolve_group (hs : ofFields limit fs = .ok s) (ht : ofFields limit fs' = .ok t)
    (h : Dissolves g fs fs') (hg : g.IsPlainGroup) (hname : ∀ f ∈ t.allFields, f.name ≠ g.name) :
    (∀ m values, s.validate m values = t.validate m values) ∧
      (∀ values, s.submission values = t.submission values) ∧
      s.defaults = t.defaults ∧
      s.dependents = t.dependents ∧ s.computeOrder = t.computeOrder ∧
      (∀ values flags, (s.states values flags).erase g.name = t.states values flags) ∧
      ∀ flags epsilon previous next,
        let u := s.recompute flags epsilon previous next
        let u' := t.recompute flags epsilon previous next
        u.computed = u'.computed ∧ u.cleared = u'.cleared ∧ u.states.erase g.name = u'.states := by
  have halike := alike_of_dissolves hs ht h hg hname
  have hnames := name_ne_of_mem_declarations hname
  obtain ⟨-, rfl, -⟩ := ofFields_eq_ok_iff.1 hs
  obtain ⟨-, rfl, -⟩ := ofFields_eq_ok_iff.1 ht
  obtain ⟨before, after, hsfields, htfields⟩ := declarations_dissolve h
  have hstates := states_erase hsfields htfields hnames
  refine ⟨fun m values ↦ ?_, fun values ↦ ?_, ?_, halike.dependents, halike.order, hstates,
    fun flags epsilon previous next ↦ ?_⟩
  · rw [validate_eq, validate_eq, failuresAmong_dissolve h hg]
  · rw [submission, submission, submittedOf_dissolve h hg]
  · rw [defaults_eq, defaults_eq, hsfields, htfields, List.filterMap_append, List.filterMap_append,
      List.filterMap_cons_none (by rw [hg.defaultValue]; rfl)]
  · simp only [recompute_eq, halike.settling_eq, hstates, and_self]

/-- What a line comes to. -/
def total : Field where
  name := "total"
  component := "number"
  computation := some { source := "qty * price" }

/-- A group around the total of a line. -/
def totals : Field where
  name := "totals"
  component := "group"
  columns := [total]

/-- An order, of which each line has a quantity and then some fields more. -/
def orderSchema (rest : List Field) : Schema where
  fields := [{ name := "price", component := "number" },
    { name := "lines", component := "list",
      columns := { name := "qty", component := "number" } :: rest }]
  computeOrder := ["total"]

/-- A group in the rows of a list is only a way to show them. -/
theorem totals_dissolve :
    ofFields defaultDepthLimit (orderSchema [totals]).fields = .ok (orderSchema [totals]) ∧
      ofFields defaultDepthLimit (orderSchema [total]).fields = .ok (orderSchema [total]) ∧
      ∀ m values, (orderSchema [totals]).validate m values =
        (orderSchema [total]).validate m values := by
  have hs : ofFields defaultDepthLimit (orderSchema [totals]).fields = .ok (orderSchema [totals]) :=
    ofFields_of_order rfl (by cbv)
  have ht : ofFields defaultDepthLimit (orderSchema [total]).fields = .ok (orderSchema [total]) :=
    ofFields_of_order rfl (by cbv)
  have hdissolves : Dissolves totals (orderSchema [totals]).fields
      (orderSchema [total]).fields :=
    .behind _ (.inside _ [] (.behind _ (.here (g := totals) [])))
  exact ⟨hs, ht, (dissolve_group hs ht hdissolves
    ⟨rfl, rfl, rfl, rfl, rfl, rfl, rfl, rfl⟩ (by decide)).1⟩

end Schema

end ReactiveForm
