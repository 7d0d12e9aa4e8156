import Mathlib.Data.List.Nodup
import ReactiveForm.Form.Recompute
import ReactiveForm.Proofs.Order

/-!
# Looking up fields

What a schema says about a name: the field it finds under it, the lists and cells among its fields,
and the order of its computations.

The fields inside a field of a tree are fields of the tree (`subtree_subset_preorder`), and stand
together there.  Lists that are reached without entering a list, and the cells of a list, are among
the fields of the tree and in their order (`outerListsOf_sublist`, `cellsOf_sublist`).  So whatever
is said about all names of the tree, such as that they differ, is said about the names of lists and
cells.

Names may be shared, and then the last field with a name speaks for it (`lastSaid?`): that is the
field that is found under it, and the computation that the graph of the schema knows under the name
is that field's.  With that the laws of the order read as laws of computations: none reads what it
computes (`Schema.avoids_self`) or what is computed after it (`Schema.inOrder_of_ofFields`).
-/

set_option autoImplicit false
namespace ReactiveForm

variable {fs : List Field} {f list column : Field} {name : String}

/-! ## Fields in the tree -/

theorem mem_subtree_self (f : Field) : f ∈ f.subtree := by
  obtain ⟨d, columns⟩ := f
  rw [Field.subtree]
  exact List.mem_cons_self

theorem preorder_columns_sublist (f : Field) : (preorder f.columns).Sublist f.subtree := by
  obtain ⟨d, columns⟩ := f
  rw [Field.subtree]
  exact List.sublist_cons_self _ _

theorem sublist_preorder (fs : List Field) : fs.Sublist (preorder fs) := by
  induction fs with
  | nil => exact .slnil
  | cons f fs ih =>
    rw [preorder]
    exact (List.singleton_sublist.2 (mem_subtree_self f)).append ih

theorem subtree_subset_preorder (h : f ∈ fs) : f.subtree ⊆ preorder fs := by
  induction fs with
  | nil => exact absurd h List.not_mem_nil
  | cons g fs ih =>
    rw [preorder]
    rcases List.mem_cons.1 h with rfl | h
    · exact List.subset_append_left ..
    · exact List.Subset.trans (ih h) (List.subset_append_right ..)

/-! ## Lists and cells in the tree -/

mutual

theorem Field.outerLists_sublist : ∀ f : Field, f.outerLists.Sublist f.subtree
  | ⟨d, columns⟩ => by
    rw [Field.outerLists, Field.subtree]
    split
    · exact (List.nil_sublist _).cons_cons _
    · split
      · exact (outerListsOf_sublist columns).cons _
      · exact List.nil_sublist _

theorem outerListsOf_sublist : ∀ fs : List Field, (outerListsOf fs).Sublist (preorder fs)
  | [] => List.Sublist.slnil
  | f :: fs => by
    rw [outerListsOf, preorder]
    exact f.outerLists_sublist.append (outerListsOf_sublist fs)

end

mutual

theorem Field.cells_sublist : ∀ f : Field, f.cells.Sublist f.subtree
  | ⟨d, columns⟩ => by
    rw [Field.cells, Field.subtree]
    split
    · exact (cellsOf_sublist columns).cons _
    · exact (List.nil_sublist _).cons_cons _

theorem cellsOf_sublist : ∀ fs : List Field, (cellsOf fs).Sublist (preorder fs)
  | [] => List.Sublist.slnil
  | f :: fs => by
    rw [cellsOf, preorder]
    exact f.cells_sublist.append (cellsOf_sublist fs)

end

mutual

theorem Field.kind_of_mem_outerLists : ∀ f : Field, list ∈ f.outerLists → list.kind = .list
  | ⟨d, columns⟩, h => by
    rw [Field.outerLists] at h
    split at h
    · rename_i hkind
      rw [List.mem_singleton.1 h]
      exact hkind
    · split at h
      · exact kind_of_mem_outerListsOf columns h
      · exact absurd h List.not_mem_nil

/-- What counts as a list is one. -/
theorem kind_of_mem_outerListsOf : ∀ fs : List Field, list ∈ outerListsOf fs → list.kind = .list
  | [], h => absurd h List.not_mem_nil
  | f :: fs, h => by
    rw [outerListsOf, List.mem_append] at h
    exact h.elim (fun h ↦ f.kind_of_mem_outerLists h) (fun h ↦ kind_of_mem_outerListsOf fs h)

end

mutual

theorem Field.subtree_sublist_subtree : ∀ g : Field, f ∈ g.subtree → f.subtree.Sublist g.subtree
  | ⟨d, columns⟩, h => by
    rw [Field.subtree, List.mem_cons] at h
    rcases h with rfl | h
    · exact List.Sublist.refl _
    · rw [Field.subtree.eq_1 d columns]
      exact (subtree_sublist_preorder columns h).cons _

/-- The fields inside a field of some trees stand together among all fields. -/
theorem subtree_sublist_preorder : ∀ fs : List Field, f ∈ preorder fs →
    f.subtree.Sublist (preorder fs)
  | [], h => absurd h List.not_mem_nil
  | g :: fs, h => by
    rw [preorder, List.mem_append] at h
    rw [preorder]
    rcases h with h | h
    · exact (g.subtree_sublist_subtree h).trans (List.sublist_append_left _ _)
    · exact (subtree_sublist_preorder fs h).trans (List.sublist_append_right _ _)

end

/-- A field and the cells of its rows, as they stand among all fields. -/
theorem cons_cellsOf_sublist_preorder (h : f ∈ preorder fs) :
    (f :: cellsOf f.columns).Sublist (preorder fs) := by
  refine List.Sublist.trans ?_ (subtree_sublist_preorder fs h)
  obtain ⟨d, columns⟩ := f
  rw [Field.subtree]
  exact (cellsOf_sublist columns).cons_cons _

/-! ## One tree after another -/

section

variable (fs gs : List Field)

theorem preorder_append : preorder (fs ++ gs) = preorder fs ++ preorder gs := by
  induction fs with
  | nil => rfl
  | cons f fs ih => rw [List.cons_append, preorder, preorder, ih, List.append_assoc]

theorem outerListsOf_append : outerListsOf (fs ++ gs) = outerListsOf fs ++ outerListsOf gs := by
  induction fs with
  | nil => rfl
  | cons f fs ih => rw [List.cons_append, outerListsOf, outerListsOf, ih, List.append_assoc]

theorem rowNamesOf_append (inList : Bool) :
    rowNamesOf inList (fs ++ gs) = rowNamesOf inList fs ++ rowNamesOf inList gs := by
  induction fs with
  | nil => rfl
  | cons f fs ih => rw [List.cons_append, rowNamesOf, rowNamesOf, ih, List.append_assoc]

end

mutual

theorem Field.rowNames_true : ∀ f : Field, f.rowNames true = f.subtree.map (·.name)
  | ⟨d, columns⟩ => by
    rw [Field.rowNames, Field.subtree, List.map_cons, Bool.true_or, rowNamesOf_true columns]
    rfl

/-- Inside a list all names are those of columns. -/
theorem rowNamesOf_true : ∀ fs : List Field, rowNamesOf true fs = (preorder fs).map (·.name)
  | [] => rfl
  | f :: fs => by
    rw [rowNamesOf, preorder, List.map_append, f.rowNames_true, rowNamesOf_true fs]

end

/-! ## The last field with a name -/

/-- **What the last field with a name says**, of those with the name that say anything. -/
def lastSaid? {α : Type} (fs : List Field) (name : String) (said : Field → Option α) : Option α :=
  fs.reverse.findSome? fun f ↦ if f.name = name then said f else none

section

variable {α : Type} {said : Field → Option α} {gs : List Field}

theorem lastSaid?_append (fs gs : List Field) (name : String) (said : Field → Option α) :
    lastSaid? (fs ++ gs) name said = (lastSaid? gs name said).or (lastSaid? fs name said) := by
  rw [lastSaid?, List.reverse_append, List.findSome?_append]
  rfl

theorem lastSaid?_of_notMem (h : name ∉ fs.map (·.name)) : lastSaid? fs name said = none := by
  refine List.findSome?_eq_none_iff.2 fun f hf ↦ if_neg ?_
  rintro rfl
  exact h (List.mem_map_of_mem (List.mem_reverse.1 hf))

/-- Fields behind others that do not have the name say nothing. -/
theorem lastSaid?_append_of_notMem (h : name ∉ gs.map (·.name)) :
    lastSaid? (fs ++ gs) name said = lastSaid? fs name said := by
  rw [lastSaid?_append, lastSaid?_of_notMem h, Option.none_or]

theorem lastSaid?_map {β : Type} (g : α → β) (fs : List Field) (name : String) :
    (lastSaid? fs name fun f ↦ (said f).map g) = (lastSaid? fs name said).map g := by
  rw [lastSaid?, lastSaid?, List.map_findSome?]
  congr 1
  funext f
  simp only [Function.comp_apply]
  split <;> rfl

/-- **A table that fields enter themselves in** has under a name what the last one says. -/
theorem find?_ofList_filterMap (fs : List Field) (said : Field → Option α) (name : String) :
    (Table.ofList (fs.filterMap fun f ↦ (said f).map fun a ↦ (f.name, a))).find? name =
      lastSaid? fs name said := by
  rw [Table.find?_ofList, lastSaid?, ← List.filterMap_reverse]
  induction fs.reverse with
  | nil => rfl
  | cons f fs ih =>
    rw [List.filterMap_cons, List.findSome?_cons]
    cases hsaid : said f with
    | none => simpa using ih
    | some a =>
      rw [Option.map_some, Table.find?_cons, ih]
      by_cases hname : f.name = name
      · simp [hname]
      · simp [hname, Ne.symm hname]

end

/-! ## What computations read -/

/-- The graph has under a name what the last computation of that name reads. -/
theorem find?_computeGraph_eq (fs : List Field) (name : String) :
    (computeGraph fs).find? name =
      (lastSaid? (preorder fs) name (·.computation)).map fun c ↦ Names.ofList c.inputs := by
  have hgraph := find?_ofList_filterMap (preorder fs)
    (fun f ↦ f.computation.map fun c ↦ Names.ofList c.inputs) name
  simp only [Option.map_map] at hgraph
  rw [computeGraph]
  exact hgraph.trans (lastSaid?_map _ _ _)

/-- The graph has the names of the computed fields. -/
theorem mem_names_computeGraph :
    name ∈ (computeGraph fs).names ↔ ∃ f ∈ preorder fs, f.name = name ∧ f.computation.isSome := by
  rw [computeGraph, Table.ofList, Table.mem_names_overlay]
  simp only [Table.names, List.map_nil, List.not_mem_nil, false_or, List.mem_map,
    List.mem_filterMap, Option.map_eq_some_iff]
  constructor
  · rintro ⟨e, ⟨f, hf, c, hc, rfl⟩, rfl⟩
    exact ⟨f, hf, rfl, by rw [hc]; rfl⟩
  · rintro ⟨f, hf, rfl, hc⟩
    obtain ⟨c, hc⟩ := Option.isSome_iff_exists.1 hc
    exact ⟨_, ⟨f, hf, c, hc, rfl⟩, rfl⟩

/-! ## The field with a name -/

namespace Schema

variable {s : Schema}

theorem mem_of_field? (h : s.field? name = some f) : f ∈ s.allFields ∧ f.name = name :=
  ⟨List.mem_reverse.1 (List.mem_of_find?_eq_some h), by simpa using List.find?_some h⟩

theorem field?_eq_lastSaid? (s : Schema) (name : String) :
    s.field? name = lastSaid? s.allFields name some := by
  rw [field?, lastSaid?, List.find?_eq_findSome?_guard]
  congr 1
  funext f
  simp [Option.guard]

/-- What the field with a name says is what the last one says. -/
theorem lastSaid?_of_field? {α : Type} {said : Field → Option α} {a : α}
    (hf : s.field? name = some f) (ha : said f = some a) :
    lastSaid? s.allFields name said = some a := by
  obtain ⟨hname, before, after, hsplit, hbefore⟩ := List.find?_eq_some_iff_append.1 hf
  rw [beq_iff_eq] at hname
  rw [lastSaid?, hsplit, List.findSome?_append, List.findSome?_cons, if_pos hname, ha,
    List.findSome?_eq_none_iff.2 fun g hg ↦ if_neg (by simpa using hbefore g hg), Option.none_or]

/-- The state under a name is that of the field with the name. -/
theorem find?_states (s : Schema) (values : Record) (flags : FormFlags) (name : String) :
    (s.states values flags).find? name = (s.field? name).map (·.state values flags) := by
  have hstates := find?_ofList_filterMap s.allFields (fun f ↦ some (f.state values flags)) name
  simp only [Option.map_some, List.filterMap_eq_map'] at hstates
  rw [states, hstates, field?_eq_lastSaid?, ← lastSaid?_map]
  rfl

theorem mem_allFields_of_mem_lists (h : list ∈ outerListsOf s.fields) : list ∈ s.allFields :=
  (outerListsOf_sublist s.fields).subset h

theorem mem_computedCells (h : column ∈ s.computedCells list) :
    column ∈ cellsOf list.columns ∧ column.name ∈ s.computeOrder := by
  obtain ⟨name, hname, hfind⟩ := List.mem_filterMap.1 h
  have heq := List.find?_some hfind
  rw [beq_iff_eq] at heq
  exact ⟨List.mem_of_find?_eq_some hfind, heq ▸ hname⟩

theorem ofFieldsBy_eq_ok_iff {compiles : String → Bool} {limit : Nat} :
    ofFieldsBy compiles limit fs = .ok s ↔
      treeFaultOf? limit rootName [] fs compiles = none ∧ s.fields = fs ∧
        (computeGraph fs).order = .ok s.computeOrder := by
  rw [ofFieldsBy]
  cases treeFaultOf? limit rootName [] fs compiles with
  | some fault => simp
  | none =>
    cases (computeGraph fs).order with
    | error cycle => simp
    | ok order =>
      simp only [Except.ok.injEq, true_and]
      exact ⟨fun h ↦ by rw [← h]; exact ⟨rfl, rfl⟩, fun ⟨hfields, horder⟩ ↦ by
        rw [← hfields, horder]⟩

theorem ofFieldsBy_eq_error_iff {compiles : String → Bool} {limit : Nat} {e : SchemaError} :
    ofFieldsBy compiles limit fs = .error e ↔
      treeFaultOf? limit rootName [] fs compiles = some e ∨
      treeFaultOf? limit rootName [] fs compiles = none ∧
        ∃ cycle, (computeGraph fs).order = .error cycle ∧ .computeCycle cycle = e := by
  rw [ofFieldsBy]
  cases treeFaultOf? limit rootName [] fs compiles with
  | some fault => simp
  | none => cases (computeGraph fs).order <;> simp

/-- **When a schema is accepted**, and what it is made of. -/
theorem ofFields_eq_ok_iff {limit : Nat} : ofFields limit fs = .ok s ↔
    treeFaultOf? limit rootName [] fs = none ∧ s.fields = fs ∧
      (computeGraph fs).order = .ok s.computeOrder :=
  ofFieldsBy_eq_ok_iff

/-- A schema is accepted as it stands if its tree is and its computations can be done in its
order. -/
theorem ofFields_of_order {limit : Nat} (hfault : treeFaultOf? limit rootName [] s.fields = none)
    (horder : (computeGraph s.fields).order = .ok s.computeOrder) :
    ofFields limit s.fields = .ok s :=
  ofFields_eq_ok_iff.2 ⟨hfault, rfl, horder⟩

/-! ## Schemas in which all names are plain -/

/-- **All names of the tree are plain.** -/
def PlainNames (s : Schema) : Prop := ∀ f ∈ s.allFields, isDotted f.name = false

instance (s : Schema) : Decidable s.PlainNames :=
  inferInstanceAs (Decidable (∀ f ∈ s.allFields, _))

theorem PlainNames.of_field? (h : s.PlainNames) (hf : s.field? name = some f) :
    isDotted name = false :=
  (mem_of_field? hf).2 ▸ h f (mem_of_field? hf).1

theorem PlainNames.of_mem_lists (h : s.PlainNames) (hlist : list ∈ outerListsOf s.fields) :
    isDotted list.name = false :=
  h list (mem_allFields_of_mem_lists hlist)

/-! ## Schemas in which all names differ -/

/-- **All names of the tree differ.** -/
def DistinctNames (s : Schema) : Prop := (s.allFields.map (·.name)).Nodup

instance (s : Schema) : Decidable s.DistinctNames := inferInstanceAs (Decidable (List.Nodup _))

theorem DistinctNames.eq_of_name_eq (h : s.DistinctNames) {f g : Field} (hf : f ∈ s.allFields)
    (hg : g ∈ s.allFields) (hname : f.name = g.name) : f = g :=
  List.inj_on_of_nodup_map h hf hg hname

/-- Lists have different names. -/
theorem DistinctNames.pairwise_lists (h : s.DistinctNames) :
    (outerListsOf s.fields).Pairwise fun f g ↦ f.name ≠ g.name :=
  List.pairwise_map.1 (List.Pairwise.sublist ((outerListsOf_sublist s.fields).map _) h)

/-- A field is the one that is found under its name. -/
theorem DistinctNames.field?_eq (h : s.DistinctNames) (hf : f ∈ s.allFields) :
    s.field? f.name = some f := by
  have hsome : (s.field? f.name).isSome :=
    List.find?_isSome.2 ⟨f, List.mem_reverse.2 hf, by simp⟩
  obtain ⟨g, hg⟩ := Option.isSome_iff_exists.1 hsome
  obtain ⟨hmem, hname⟩ := mem_of_field? hg
  rw [hg, h.eq_of_name_eq hmem hf hname]

/-- **The computation that counts under a name**: that of the last computed field with the name. -/
def computation? (s : Schema) (name : String) : Option Computation :=
  lastSaid? s.allFields name (·.computation)

/-- The graph knows the computation that counts under a name. -/
theorem find?_computeGraph {c : Computation} (hc : s.computation? name = some c) :
    (computeGraph s.fields).find? name = some (Names.ofList c.inputs) := by
  rw [find?_computeGraph_eq,
    show lastSaid? (preorder s.fields) name (·.computation) = some c from hc, Option.map_some]

/-- An accepted schema computes the fields that have a computation. -/
theorem mem_computeOrder_iff {limit : Nat} (h : ofFields limit fs = .ok s) :
    name ∈ s.computeOrder ↔ ∃ f ∈ s.allFields, f.name = name ∧ f.computation.isSome := by
  obtain ⟨-, rfl, horder⟩ := ofFields_eq_ok_iff.1 h
  rw [Graph.mem_order_iff horder, mem_names_computeGraph]
  rfl

theorem PlainNames.of_mem_computeOrder {limit : Nat} (h : s.PlainNames)
    (hs : ofFields limit fs = .ok s) (hname : name ∈ s.computeOrder) : isDotted name = false := by
  obtain ⟨f, hf, rfl, -⟩ := (mem_computeOrder_iff hs).1 hname
  exact h f hf

/-- The field under a name is not computed from another one's value. -/
def Avoids (s : Schema) (name other : String) : Prop :=
  ∀ f, s.field? name = some f → ∀ c, f.computation = some c → other ∉ c.inputs

theorem avoids_of_notMem_next {other : String}
    (hother : other ∉ (computeGraph s.fields).next name) : s.Avoids name other := by
  intro f hf c hc hinput
  rw [Graph.next_of_find? (find?_computeGraph (lastSaid?_of_field? hf hc)), Names.mem_ofList]
    at hother
  exact hother hinput

/-- **A schema whose computations come in order**: none of them is or reads one that comes later. -/
def InOrder (s : Schema) : Prop := s.computeOrder.Pairwise fun a b ↦ a ≠ b ∧ s.Avoids a b

/-- **A computation of an accepted schema reads nothing that is computed later.** -/
theorem inOrder_of_ofFields {limit : Nat} (hs : ofFields limit fs = .ok s) : s.InOrder := by
  obtain ⟨-, rfl, horder⟩ := ofFields_eq_ok_iff.1 hs
  refine ((Graph.order_nodup horder).and (Graph.order_pairwise horder)).imp ?_
  exact fun ⟨hne, hnext⟩ ↦ ⟨hne, avoids_of_notMem_next hnext⟩

/-- No computation reads what it computes. -/
theorem avoids_self {limit : Nat} (hs : ofFields limit fs = .ok s)
    (hname : name ∈ s.computeOrder) : s.Avoids name name := by
  obtain ⟨-, rfl, horder⟩ := ofFields_eq_ok_iff.1 hs
  exact avoids_of_notMem_next (Graph.order_irrefl horder hname)

end Schema

end ReactiveForm
