import Mathlib.Data.List.Find
import ReactiveForm.Proofs.Acceptance
import ReactiveForm.Proofs.Clearing
import ReactiveForm.Proofs.Grouping
import ReactiveForm.Proofs.Validation

/-!
# Fields in another order

The order in which the fields of a form are declared is that of their places on the screen, and it
has no other meaning as long as their names do not clash: the names are plain, and no two fields
have the same one (`NoClash`).  `Rearranged` is the relation between two forms that have the same
fields in another order, at any depth; `Schema.rearrange` says what is the same about them.

The two have the same declarations, in another order (`Rearranged.declarations_perm`).  So what is
kept by name is the same, because nothing takes the place of anything else (`Table.ofList_perm`),
and a set is the same anyhow.

Validation and submission go through the tree.  The first failure at a path counts, so that it
matters which field comes first if two of them fail at one path; but a path ends in the name of the
field (`Field.Fault.exists_name`), so two fields never do.  What is submitted comes in another
order, and is put in its place by name.
-/

set_option autoImplicit false
namespace ReactiveForm

variable {fs fs' : List Field} {f g : Field} {m : Criteria} {name path : String}

/-- **The same fields in another order**, at any depth. -/
inductive Rearranged : List Field → List Field → Prop
  | nil : Rearranged [] []
  | cons (d : Declaration) {columns columns' fs fs' : List Field}
      (hcolumns : Rearranged columns columns') (h : Rearranged fs fs') :
      Rearranged (⟨d, columns⟩ :: fs) (⟨d, columns'⟩ :: fs')
  | swap (f g : Field) (fs : List Field) : Rearranged (f :: g :: fs) (g :: f :: fs)
  | trans {fs gs hs : List Field} (h : Rearranged fs gs) (h' : Rearranged gs hs) :
      Rearranged fs hs

namespace Rearranged

mutual

theorem refl_of_field : ∀ (f : Field) {fs fs' : List Field}, Rearranged fs fs' →
    Rearranged (f :: fs) (f :: fs')
  | ⟨d, columns⟩, _, _, h => .cons d (refl columns) h

/-- Fields need not change their order. -/
theorem refl : ∀ fs : List Field, Rearranged fs fs
  | [] => .nil
  | f :: fs => refl_of_field f (refl fs)

end

/-- **Any order of siblings** will do. -/
theorem of_perm (h : fs.Perm fs') : Rearranged fs fs' := by
  induction h with
  | nil => exact .nil
  | cons f _ ih => exact refl_of_field f ih
  | swap f g fs => exact .swap g f fs
  | trans _ _ ih ih' => exact ih.trans ih'

/-- **The declarations are the same**, in another order. -/
theorem declarations_perm (h : Rearranged fs fs') :
    (declarations fs).Perm (declarations fs') := by
  induction h with
  | nil => exact .refl _
  | cons d _ _ ih ih' =>
    rw [declarations_cons, declarations_cons]
    exact (ih.append ih').cons d
  | swap f g fs =>
    have hsplit : ∀ f g : Field, declarations (f :: g :: fs) =
        declarations [f] ++ (declarations [g] ++ declarations fs) := by
      intro f g
      rw [← declarations_append, ← declarations_append]
      rfl
    rw [hsplit, hsplit]
    exact List.perm_append_comm_assoc ..
  | trans _ _ ih ih' => exact ih.trans ih'

/-- So are the names. -/
theorem names_perm (h : Rearranged fs fs') :
    ((preorder fs).map (·.name)).Perm ((preorder fs').map (·.name)) := by
  rw [← names_declarations, ← names_declarations]
  exact h.declarations_perm.map _

/-- The names of columns of lists are the same. -/
theorem mem_rowNamesOf (h : Rearranged fs fs') :
    ∀ inList : Bool, name ∈ rowNamesOf inList fs ↔ name ∈ rowNamesOf inList fs' := by
  induction h with
  | nil => exact fun _ ↦ Iff.rfl
  | cons d _ _ ih ih' =>
    intro inList
    simp only [rowNamesOf, Field.rowNames, List.mem_append, ih, ih']
  | swap f g fs =>
    intro inList
    simp only [rowNamesOf, List.mem_append, or_left_comm]
  | trans _ _ ih ih' => exact fun inList ↦ (ih inList).trans (ih' inList)

end Rearranged

/-! ## Names that do not clash

Where names clash the order has a meaning: the last declaration of a name counts, and of two
failures at one path the first.  With names that do not clash neither ever comes into it, at any
depth (`NoClash.of_columns`, `NoClash.of_tail`). -/

/-- **Fields whose names do not clash**: the names are plain, and they differ. -/
structure NoClash (fs : List Field) : Prop where
  nodup : ((preorder fs).map (·.name)).Nodup
  plain : ∀ f ∈ preorder fs, isDotted f.name = false

namespace NoClash

theorem of_sublist (h : NoClash fs) (hsublist : (preorder fs').Sublist (preorder fs)) :
    NoClash fs' where
  nodup := (hsublist.map _).nodup h.nodup
  plain f hf := h.plain f (hsublist.subset hf)

/-- Names of columns do not clash if those of the fields do not. -/
theorem of_columns (h : NoClash (f :: fs)) : NoClash f.columns := by
  refine h.of_sublist ?_
  rw [preorder]
  exact (preorder_columns_sublist f).trans (List.sublist_append_left ..)

theorem of_tail (h : NoClash (f :: fs)) : NoClash fs := by
  refine h.of_sublist ?_
  rw [preorder]
  exact List.sublist_append_right ..

/-- Names that do not clash do not clash in another order. -/
theorem rearranged (h : NoClash fs) (hperm : Rearranged fs fs') : NoClash fs' where
  nodup := hperm.names_perm.nodup h.nodup
  plain f hf := by
    obtain ⟨g, hg, hname⟩ := List.mem_map.1 (hperm.names_perm.mem_iff.2 (List.mem_map_of_mem hf))
    rw [← hname]
    exact h.plain g hg

/-- What is in one of two siblings has another name than what is in the other one. -/
theorem name_ne (h : NoClash (f :: g :: fs)) {a b : Field} (ha : a ∈ f.subtree)
    (hb : b ∈ g.subtree) : a.name ≠ b.name := by
  have hnodup := h.nodup
  rw [preorder, preorder, List.map_append, List.map_append] at hnodup
  exact (List.nodup_append.1 hnodup).2.2 a.name (List.mem_map_of_mem ha) b.name
    (List.mem_append_left _ (List.mem_map_of_mem hb))

end NoClash

/-! ## Validation

What is found at a path is the first failure there.  Since a path ends in the name of the field that
fails, whether in the form or in a row of a list, the failures of two siblings are at different
paths. -/

/-- Whether paths that belong to plain names end in them. -/
def EndsInNames (locate : String → String) : Prop :=
  ∀ name, isDotted name = false → (segments (locate name)).getLast? = some name

theorem endsInNames_id : EndsInNames id := by
  intro name hname
  rw [id, segments_of_not_isDotted hname, List.getLast?_singleton]

/-- The path of a cell ends in the name of its column. -/
theorem endsInNames_cellPath (list : String) (index : Nat) : EndsInNames (cellPath list index) := by
  intro name hname
  rw [cellPath, segments_append, segments_of_not_isDotted hname, List.getLast?_concat]

/-- **A fault has a path that ends in the name of a field.** -/
theorem Field.Fault.exists_name {locate : String → String} {source scope : Record} {place : Place}
    {message : String} (h : f.Fault m locate source scope place path message)
    (hplain : ∀ d ∈ f.subtree, isDotted d.name = false) (hlocate : EndsInNames locate) :
    ∃ d ∈ f.subtree, (segments path).getLast? = some d.name := by
  have hcolumns : ∀ f column : Field, column ∈ f.columns → column.subtree ⊆ f.subtree := by
    intro f column hcolumn
    exact List.Subset.trans (subtree_subset_preorder hcolumn) (preorder_columns_sublist f).subset
  induction h with
  | @check f locate _ _ _ _ _ _ _ =>
    have hself := mem_subtree_self f
    exact ⟨f, hself, hlocate f.name (hplain f hself)⟩
  | @inGroup f _ _ _ _ column _ _ _ _ _ hcolumn _ ih =>
    have hsubset := hcolumns f column (List.mem_of_getElem? hcolumn)
    obtain ⟨d, hd, hend⟩ := ih (fun d hd ↦ hplain d (hsubset hd)) hlocate
    exact ⟨d, hsubset hd, hend⟩
  | @inRow f _ _ _ _ _ _ _ column _ _ _ _ _ _ _ hcolumn _ ih =>
    have hsubset := hcolumns f column (List.mem_of_getElem? hcolumn)
    obtain ⟨d, hd, hend⟩ := ih (fun d hd ↦ hplain d (hsubset hd)) (endsInNames_cellPath _ _)
    exact ⟨d, hsubset hd, hend⟩

/-- Siblings never fail at the same path. -/
theorem NoClash.find?_failuresAmong_eq_none (h : NoClash (f :: g :: fs))
    {locate : String → String} (hlocate : EndsInNames locate) (source scope : Record)
    (path : String) :
    Table.find? (f.failuresAmong m locate source scope) path = none ∨
      Table.find? (g.failuresAmong m locate source scope) path = none := by
  simp only [Table.find?_eq_none_iff, ← not_and_or]
  rintro ⟨hf, hg⟩
  obtain ⟨_, _, hfault⟩ := (f.reports m locate source scope).mem_names_iff.1 hf
  obtain ⟨_, _, hfault'⟩ := (g.reports m locate source scope).mem_names_iff.1 hg
  have hfirst : ∀ a ∈ f.subtree, isDotted a.name = false := fun a ha ↦
    h.plain a (subtree_subset_preorder List.mem_cons_self ha)
  have hsecond : ∀ b ∈ g.subtree, isDotted b.name = false := fun b hb ↦
    h.of_tail.plain b (subtree_subset_preorder List.mem_cons_self hb)
  obtain ⟨a, ha, hend⟩ := hfault.exists_name hfirst hlocate
  obtain ⟨b, hb, hend'⟩ := hfault'.exists_name hsecond hlocate
  exact h.name_ne ha hb (Option.some.inj (hend.symm.trans hend'))

namespace Rearranged

/-- **The same failures are found**, at every path. -/
theorem find?_failuresAmong (h : Rearranged fs fs') (hclash : NoClash fs) :
    ∀ {locate : String → String}, EndsInNames locate → ∀ (source scope : Record) (path : String),
      Table.find? (failuresAmong m locate source scope fs) path =
        Table.find? (failuresAmong m locate source scope fs') path := by
  induction h with
  | nil => exact fun _ _ _ _ ↦ rfl
  | @cons d columns columns' fs fs' hcolumns h ih ih' =>
    intro locate hlocate source scope path
    have hfield : Table.find? (Field.failuresAmong m locate source scope ⟨d, columns⟩) path =
        Table.find? (Field.failuresAmong m locate source scope ⟨d, columns'⟩) path := by
      rw [Field.failuresAmong, Field.failuresAmong]
      split
      · rfl
      · split
        · exact ih hclash.of_columns hlocate source scope path
        · -- a list reads its columns once more in each row
          rw [Declaration.failuresAt_eq, Declaration.failuresAt_eq, Table.find?_append,
            Table.find?_append]
          congr 1
          refine Table.find?_flatMap_congr fun (row, i) _ ↦ ?_
          simp only [rowFailures_eq]
          exact ih hclash.of_columns (endsInNames_cellPath _ _) row (scope.overlay row) path
    rw [failuresAmong, failuresAmong, Table.find?_append, Table.find?_append, hfield,
      ih' hclash.of_tail hlocate]
  | swap f g fs =>
    intro locate hlocate source scope path
    simp only [failuresAmong, Table.find?_append, ← Option.or_assoc]
    rcases hclash.find?_failuresAmong_eq_none hlocate source scope path with hnone | hnone <;>
      rw [hnone, Option.none_or, Option.or_none]
  | trans h _ ih ih' =>
    intro locate hlocate source scope path
    rw [ih hclash hlocate, ih' (hclash.rearranged h) hlocate]

end Rearranged

/-! ## Submission

Plain names are put into the record one by one, which is the table of the entries; a table does not
depend on the order of entries whose names differ. -/

/-- Plain names are not taken apart, so what is nested is a table. -/
theorem nested_eq_ofList {entries : List (String × Value)}
    (hplain : ∀ name ∈ Table.names entries, isDotted name = false) :
    nested entries = Table.ofList entries := by
  rw [nested, Table.ofList, Table.overlay]
  refine List.foldl_ext _ _ _ fun r e he ↦ ?_
  rw [segments_of_not_isDotted (hplain e.1 (List.mem_map_of_mem he)), Record.nest]

section

variable {snapshot source : Record}

mutual

theorem Field.names_submitted_sublist : ∀ f : Field,
    (Table.names (f.submitted snapshot source)).Sublist (f.subtree.map (·.name))
  | ⟨d, columns⟩ => by
    rw [Field.submitted, Field.subtree, List.map_cons]
    split
    · exact List.nil_sublist _
    · split
      · exact (names_submittedOf_sublist columns).cons _
      · split
        · exact List.nil_sublist _
        · exact (List.nil_sublist _).cons_cons _

/-- What some fields submit has names of theirs, in their order. -/
theorem names_submittedOf_sublist : ∀ fs : List Field,
    (Table.names (submittedOf snapshot source fs)).Sublist ((preorder fs).map (·.name))
  | [] => List.Sublist.slnil
  | f :: fs => by
    rw [submittedOf, preorder, Table.names, List.map_append, List.map_append]
    exact f.names_submitted_sublist.append (names_submittedOf_sublist fs)

end

/-- What is submitted in another order comes to the same record. -/
theorem NoClash.nested_submittedOf (h : NoClash fs)
    (hperm : (submittedOf snapshot source fs).Perm (submittedOf snapshot source fs')) :
    nested (submittedOf snapshot source fs) = nested (submittedOf snapshot source fs') := by
  have hnames : (Table.names (submittedOf snapshot source fs)).Sublist
      ((preorder fs).map (·.name)) := names_submittedOf_sublist fs
  have hplain : ∀ name ∈ Table.names (submittedOf snapshot source fs), isDotted name = false := by
    intro name hname
    obtain ⟨f, hf, rfl⟩ := List.mem_map.1 (hnames.subset hname)
    exact h.plain f hf
  rw [nested_eq_ofList hplain, nested_eq_ofList fun name hname ↦
    hplain name ((hperm.map _).mem_iff.2 hname), Table.ofList_perm hperm (hnames.nodup h.nodup)]

end

/-- **The same is submitted**, in another order. -/
theorem Rearranged.submittedOf_perm (h : Rearranged fs fs') (hclash : NoClash fs)
    (snapshot : Record) : ∀ source : Record,
      (submittedOf snapshot source fs).Perm (submittedOf snapshot source fs') := by
  induction h with
  | nil => exact fun _ ↦ .refl _
  | @cons d columns columns' fs fs' _ _ ih ih' =>
    intro source
    have hrow : ∀ row : Record, nested (submittedOf snapshot row columns) =
        nested (submittedOf snapshot row columns') := fun row ↦
      hclash.of_columns.nested_submittedOf (ih hclash.of_columns row)
    have hfield : (Field.submitted snapshot source ⟨d, columns⟩).Perm
        (Field.submitted snapshot source ⟨d, columns'⟩) := by
      rw [Field.submitted, Field.submitted]
      split
      · exact .refl _
      · split
        · exact ih hclash.of_columns source
        · simp only [hrow, List.Perm.refl]
    rw [submittedOf, submittedOf]
    exact hfield.append (ih' hclash.of_tail source)
  | swap f g fs =>
    intro source
    simp only [submittedOf]
    exact List.perm_append_comm_assoc ..
  | trans h _ ih ih' =>
    exact fun source ↦ (ih hclash source).trans (ih' (hclash.rearranged h) source)

/-! ## Acceptance

A form can be rejected for its names, or for a field that is not sound in itself.  Names that differ
in one order differ in any. -/

section

variable {limit : Nat} {parent : String} {taken : List String}

/-- **Fields whose names differ are in order** if each of them is in itself. -/
theorem treeFaultOf?_eq_none_iff (fs : List Field)
    (hnodup : ((preorder fs).map (·.name)).Nodup) (htaken : ∀ f ∈ fs, f.name ∉ taken) :
    treeFaultOf? limit parent taken fs = none ↔ ∀ g ∈ preorder fs, g.IsSound limit := by
  rw [faultless_iff]
  exact ⟨fun h ↦ h.2.2, fun h ↦ ⟨htaken, .of_nodup hnodup, h⟩⟩

end

/-! ## What is kept by name

A table that each declaration enters itself in, with what it says if it says anything, is the same
for the same declarations (`Rearranged.ofList_eq`).  The defaults, the states and the graph of the
computations are such tables, and the order of the computations depends on the graph alone. -/

namespace Rearranged

/-- **What is said of some declaration** is said of one in another order. -/
theorem exists_iff (h : Rearranged fs fs') (p : Declaration → Prop) :
    (∃ f ∈ preorder fs, p f.toDeclaration) ↔ ∃ f ∈ preorder fs', p f.toDeclaration := by
  have hmem : ∀ gs : List Field, (∃ f ∈ preorder gs, p f.toDeclaration) ↔
      ∃ d ∈ declarations gs, p d := fun gs ↦ by simp [declarations]
  simp only [hmem, h.declarations_perm.mem_iff]

/-- **What is said of all declarations** is said of all in another order. -/
theorem forall_iff (h : Rearranged fs fs') (p : Declaration → Prop) :
    (∀ f ∈ preorder fs, p f.toDeclaration) ↔ ∀ f ∈ preorder fs', p f.toDeclaration := by
  have hmem : ∀ gs : List Field, (∀ f ∈ preorder gs, p f.toDeclaration) ↔
      ∀ d ∈ declarations gs, p d := fun gs ↦ by simp [declarations]
  simp only [hmem, h.declarations_perm.mem_iff]

/-- What declarations say stands under their names. -/
theorem names_filterMap_sublist {α : Type} (said : Declaration → Option α)
    (ds : List Declaration) :
    (Table.names (ds.filterMap fun d ↦ (said d).map fun a ↦ (d.name, a))).Sublist
      (ds.map (·.name)) := by
  induction ds with
  | nil => exact List.Sublist.slnil
  | cons d ds ih =>
    rw [List.filterMap_cons]
    cases said d with
    | none => exact ih.cons _
    | some a => exact ih.cons_cons _

/-- **A table that declarations enter themselves in** is the same. -/
theorem ofList_eq (h : Rearranged fs fs') (hclash : NoClash fs) {α : Type}
    (said : Declaration → Option α) :
    Table.ofList ((declarations fs).filterMap fun d ↦ (said d).map fun a ↦ (d.name, a)) =
      Table.ofList ((declarations fs').filterMap fun d ↦ (said d).map fun a ↦ (d.name, a)) := by
  refine Table.ofList_perm (h.declarations_perm.filterMap _)
    ((names_filterMap_sublist said _).nodup ?_)
  rw [names_declarations]
  exact hclash.nodup

end Rearranged

namespace Schema

section

variable {s t : Schema} (h : Rearranged s.fields t.fields)

include h

theorem watched_rearranged : s.watched = t.watched := by
  refine Names.ofList_congr fun path ↦ ?_
  rw [List.mem_flatMap, List.mem_flatMap]
  exact h.exists_iff fun d ↦ path ∈ d.reactsTo

/-- The same leads to the same. -/
theorem dependents_rearranged : s.dependents = t.dependents := by
  refine s.dependents_sorted.ext t.dependents_sorted (fun path ↦ ?_) fun path name ↦ ?_
  · rw [mem_names_dependents, mem_names_dependents, watched_rearranged h]
  · rw [mem_next_dependents, mem_next_dependents]
    exact h.exists_iff fun d ↦ d.name = name ∧ path ∈ d.reactsTo

theorem rowNames_rearranged : s.rowNames = t.rowNames :=
  Names.ofList_congr fun _ ↦ h.mem_rowNamesOf false

variable (hclash : NoClash s.fields)

include hclash

theorem defaults_rearranged : s.defaults = t.defaults := by
  rw [defaults_eq, defaults_eq, h.ofList_eq hclash]

theorem states_rearranged (values : Record) (flags : FormFlags) :
    s.states values flags = t.states values flags := by
  have hstates := h.ofList_eq hclash fun d ↦ some (d.state values flags)
  simpa only [states_eq, Option.map_some, List.filterMap_eq_map'] using hstates

theorem computeGraph_rearranged : computeGraph s.fields = computeGraph t.fields := by
  have hgraph := h.ofList_eq hclash fun d ↦ d.computation.map fun c ↦ Names.ofList c.inputs
  simpa only [computeGraph_eq, Option.map_map, Function.comp_def] using hgraph

/-- The same declaration has a name, for it is the only one with it. -/
theorem declared?_rearranged (name : String) : s.declared? name = t.declared? name := by
  rw [declared?_eq, declared?_eq]
  refine List.find?_eq_find?_of_perm ?_ ?_
  · exact (List.reverse_perm _).trans (h.declarations_perm.trans (List.reverse_perm _).symm)
  · have hnodup := hclash.nodup
    rw [← names_declarations] at hnodup
    rintro d ⟨hd, hname⟩ e ⟨he, hname'⟩
    rw [beq_iff_eq] at hname hname'
    exact List.inj_on_of_nodup_map hnodup (List.mem_reverse.1 hd) (List.mem_reverse.1 he)
      (hname.trans hname'.symm)

theorem validate_rearranged (m : Criteria) (values : Record) :
    s.validate m values = t.validate m values :=
  validate_congr fun path ↦ h.find?_failuresAmong hclash endsInNames_id values values path

theorem submission_rearranged (values : Record) : s.submission values = t.submission values := by
  rw [submission, submission, hclash.nested_submittedOf (h.submittedOf_perm hclash values values)]

/-- **Without lists a schema recomputes alike**, given the same order of computations. -/
theorem alike_of_rearranged (horder : s.computeOrder = t.computeOrder)
    (hlists : ∀ f ∈ s.allFields, f.kind ≠ .list) : s.Alike t := by
  have hnone : ∀ fs : List Field, (∀ f ∈ preorder fs, f.kind ≠ .list) → outerListsOf fs = [] := by
    intro fs hkind
    refine List.eq_nil_iff_forall_not_mem.2 fun list hlist ↦ ?_
    exact hkind list ((outerListsOf_sublist fs).subset hlist) (kind_of_mem_outerListsOf fs hlist)
  have hclearable : ∀ (u : Schema) (name : String),
      name ∈ u.clearable ↔ (u.declared? name).any (·.clearOnChange) = true := by
    intro u name
    rw [mem_clearable_iff, declared?, Option.any_map, Option.any_eq_true]
  refine ⟨horder, ?_, ?_, dependents_rearranged h, fun name ↦ ?_, fun name _ ↦
    declared?_rearranged h hclash name⟩
  · rw [horder, rowNames_rearranged h]
  · rw [hnone _ hlists, hnone _ ((h.forall_iff fun d ↦ d.kind ≠ .list).1 hlists)]
  · rw [hclearable, hclearable, declared?_rearranged h hclash]

theorem recompute_rearranged (horder : s.computeOrder = t.computeOrder)
    (hlists : ∀ f ∈ s.allFields, f.kind ≠ .list) (flags : FormFlags) (epsilon : Binary64)
    (previous : Option Record) (next : Record) :
    s.recompute flags epsilon previous next = t.recompute flags epsilon previous next := by
  have halike := alike_of_rearranged h hclash horder hlists
  rw [recompute_eq, recompute_eq, halike.settling_eq, states_rearranged h hclash]

end

/-! ## Rearranging a form -/

variable {s : Schema} {limit : Nat}

/-- **The order of the fields has no meaning** if their names do not clash.  Rearranged at any
depth, a form is accepted as before, with the same dependencies, order of computations, default
values and watched paths, and the same is said of any values: the states, what is wrong with them
and what is submitted.  Without lists the same follows from any change. -/
theorem rearrange (hs : ofFields limit fs = .ok s) (hdistinct : s.DistinctNames)
    (hplain : s.PlainNames) (h : Rearranged fs fs') :
    ∃ t, ofFields limit fs' = .ok t ∧ t.dependents = s.dependents ∧
      t.computeOrder = s.computeOrder ∧ t.defaults = s.defaults ∧ t.watched = s.watched ∧
      (∀ values flags, t.states values flags = s.states values flags) ∧
      (∀ m values, t.validate m values = s.validate m values) ∧
      (∀ values, t.submission values = s.submission values) ∧
      ((∀ f ∈ s.allFields, f.kind ≠ .list) → ∀ flags epsilon previous next,
        t.recompute flags epsilon previous next = s.recompute flags epsilon previous next) := by
  have hclash : NoClash s.fields := ⟨hdistinct, hplain⟩
  obtain ⟨hsound, rfl, horder⟩ := ofFields_eq_ok_iff.1 hs
  have hfree : ∀ gs : List Field, ∀ f ∈ gs, f.name ∉ ([] : List String) := fun _ _ _ ↦
    List.not_mem_nil
  let t : Schema := ⟨fs', s.computeOrder⟩
  have hsound' : treeFaultOf? limit rootName [] fs' = none := by
    rw [treeFaultOf?_eq_none_iff fs' (hclash.rearranged h).nodup (hfree fs'),
      ← h.forall_iff fun d ↦ d.IsSound limit]
    exact (treeFaultOf?_eq_none_iff s.fields hclash.nodup (hfree s.fields)).1 hsound
  have horder' : (computeGraph fs').order = .ok s.computeOrder := by
    rw [← horder, computeGraph_rearranged (t := t) h hclash]
  refine ⟨t, ofFields_eq_ok_iff.2 ⟨hsound', rfl, horder'⟩, (dependents_rearranged h).symm, rfl,
    (defaults_rearranged h hclash).symm, (watched_rearranged h).symm, ?_, ?_, ?_, ?_⟩
  · exact fun values flags ↦ (states_rearranged h hclash values flags).symm
  · exact fun m values ↦ (validate_rearranged h hclash m values).symm
  · exact fun values ↦ (submission_rearranged h hclash values).symm
  · exact fun hlists flags epsilon previous next ↦
      (recompute_rearranged (t := t) h hclash rfl hlists flags epsilon previous next).symm

/-- The price of an article, how many are wanted, and what that comes to. -/
def offerColumns : List Field :=
  [{ name := "price", component := "number" },
    { name := "count", component := "number" },
    { name := "sum", component := "number", computation := some { source := "price * count" } }]

/-- A remark on the sum, which is cleared with it. -/
def offerRemark : Field where
  name := "remark"
  component := "input"
  dependencies := ["sum"]
  clearOnChange := true

/-- A group around the columns of an offer. -/
def offerGroup (columns : List Field) : Field where
  name := "offer"
  component := "group"
  columns := columns

/-- An offer with a remark. -/
def offerSchema : Schema where
  fields := [offerGroup offerColumns, offerRemark]
  computeOrder := ["sum"]

/-- The remark may come first, and the columns the other way round. -/
theorem offerSchema_rearranges :
    ∃ t, ofFields defaultDepthLimit [offerRemark, offerGroup offerColumns.reverse] = .ok t ∧
      ∀ flags epsilon previous next, t.recompute flags epsilon previous next =
        offerSchema.recompute flags epsilon previous next := by
  have hs : ofFields defaultDepthLimit offerSchema.fields = .ok offerSchema :=
    ofFields_of_order rfl (by cbv)
  have hcolumns : Rearranged offerColumns offerColumns.reverse :=
    .of_perm (List.reverse_perm offerColumns).symm
  have hrearranged : Rearranged offerSchema.fields
      [offerRemark, offerGroup offerColumns.reverse] :=
    .trans (.cons _ hcolumns (.refl [offerRemark])) (.swap _ offerRemark [])
  obtain ⟨t, ht, -, -, -, -, -, -, -, hrecompute⟩ :=
    rearrange hs (by decide +kernel) (by decide +kernel) hrearranged
  exact ⟨t, ht, hrecompute (by decide +kernel)⟩

end Schema

end ReactiveForm
