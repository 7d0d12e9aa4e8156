import ReactiveForm.Proofs.Chains
import ReactiveForm.Proofs.Defaults
import ReactiveForm.Proofs.ReadOrder
import ReactiveForm.Proofs.Reordering

/-!
# A list beside the fields of a form

A form may get a list more.  The tables of a schema go by names, and names need to differ among
siblings only, so the columns of the list can get in the way of the fields that were there: the last
one with a name speaks for it (`Schema.column_takes_default`), and what reacts to a name reacts to a
column with that name.

`Schema.Spares` says when a list stays out of the way: its names are other ones, what of it leads to
a field that wants to be cleared is led to by nothing, and no path to such a field is looked at for
changes only because of it.  None of this can be dropped: each theorem that ends in `_disturbs` is
about two lists of which one stays out of the way, and the other, which differs in a single
condition, does not.  While the form holds nothing where the list and its clearable columns
are, everything goes on as it did without the list, up to the order of the computations
(`Schema.Extension.settling_eq`).  The columns can change that order, for the fields of the form as
well; but where they do not, or where the order does not matter (`Schema.Untangled`), the same is
proposed, and all fields have the same states and the same defaults
(`Schema.recompute_beside_list`).
-/

set_option autoImplicit false
namespace ReactiveForm

open Record

/-! ## Lists that stay out of the way -/

/-- The names of a field and of all fields inside it. -/
def Field.names (f : Field) : List String := f.subtree.map (·.name)

/-- The names of a list that the values of a form are asked for: its own one, where its rows are,
and those of fields inside it that want to be cleared. -/
def Field.exposedNames (list : Field) : List String :=
  list.name :: (list.subtree.filter (·.clearOnChange)).map (·.name)

theorem Field.exposedNames_subset {list : Field} : list.exposedNames ⊆ list.names := by
  rw [exposedNames, names, List.cons_subset]
  refine ⟨?_, List.map_subset _ (List.filter_subset_self _)⟩
  obtain ⟨d, columns⟩ := list
  rw [subtree]
  exact List.mem_cons_self

/-- **A form holds nothing where a list is.** -/
def Field.Vacant (list : Field) (values : Record) : Prop :=
  ∀ name ∈ list.exposedNames, Value.isEmpty (values.at? name) = true

instance (list : Field) (values : Record) : Decidable (list.Vacant values) :=
  inferInstanceAs (Decidable (∀ name ∈ list.exposedNames, _))

/-- A form goes on holding nothing where a list is when it writes apart from there. -/
theorem Field.Vacant.write {list : Field} {values : Record} {path : String}
    (h : list.Vacant values) (hpath : ∀ name ∈ list.exposedNames, Apart name path)
    (x : Option Value) : list.Vacant (values.write path x) := fun name hname ↦ by
  rw [at?_write (hpath name hname)]
  exact h name hname

namespace Schema

/-- **A list that stays out of the way** of the fields of a schema. -/
structure Spares (s : Schema) (list : Field) : Prop where
  kind : list.kind = .list
  /-- No rows are computed. -/
  uncomputed : list.computation = none
  /-- No name of the list is that of another field. -/
  names : ∀ name ∈ list.names, ∀ g ∈ s.allFields, name ≠ g.name
  /-- Nothing that is written to other fields shows up where the list is. -/
  apart : ∀ name ∈ list.exposedNames, ∀ g ∈ s.allFields, Apart name g.name
  /-- A field of the list that leads to one that wants to be cleared reacts to nothing itself. -/
  inert : ∀ f ∈ list.subtree, (∃ name ∈ s.clearable, name ∈ s.dependents.downstream f.name) →
    f.reactsTo = []
  /-- A dotted path to a field that wants to be cleared is not only watched by the list. -/
  watched : ∀ f ∈ list.subtree, ∀ path ∈ f.reactsTo, isDotted path = true → path ∈ s.clearable →
    path ∈ s.watched

/-- The order of the computations is the one they had before. -/
def KeepsOrder (s s' : Schema) : Prop :=
  s'.computeOrder.filter (s.computeOrder.contains ·) = s.computeOrder

instance (s s' : Schema) : Decidable (s.KeepsOrder s') := inferInstanceAs (Decidable (_ = _))

section

variable {s : Schema} {list : Field}

/-- Among plain names a list stays out of the way if it is not computed, its names are other ones,
and what the form reacts to of it reacts to nothing. -/
theorem Spares.of_plain (hplain : s.PlainNames) (hlist : ∀ name ∈ list.names, isDotted name = false)
    (kind : list.kind = .list) (uncomputed : list.computation = none)
    (names : ∀ name ∈ list.names, ∀ g ∈ s.allFields, name ≠ g.name)
    (inert : ∀ f ∈ list.subtree, f.name ∈ s.watched → f.reactsTo = []) : s.Spares list where
  kind := kind
  uncomputed := uncomputed
  names := names
  apart name hname g hg := by
    have hmem : name ∈ list.names := Field.exposedNames_subset hname
    exact apart_of_ne (hlist name hmem) (hplain g hg) (names name hmem g hg)
  inert f hf := fun ⟨_, _, hdown⟩ ↦ inert f hf (mem_watched_of_mem_downstream hdown)
  watched _ _ path _ hdot hclear := by
    rw [hplain.of_mem_clearable hclear] at hdot
    cases hdot

/-- A list whose names begin otherwise than those of the form stays out of the way if it is not
computed, and none of its fields reacts to anything or none of the form wants to be cleared. -/
theorem Spares.of_heads (kind : list.kind = .list) (uncomputed : list.computation = none)
    (heads : ∀ name ∈ list.names, ∀ g ∈ s.allFields,
      (segments name).head? ≠ (segments g.name).head?)
    (idle : s.clearable = [] ∨ ∀ f ∈ list.subtree, f.reactsTo = []) : s.Spares list where
  kind := kind
  uncomputed := uncomputed
  names name hname g hg := by
    rintro rfl
    exact heads _ hname g hg rfl
  apart name hname g hg := apart_of_head?_ne (heads name (Field.exposedNames_subset hname) g hg)
  inert f hf := fun ⟨_, hclear, _⟩ ↦
    idle.elim (fun hnone ↦ absurd hclear (by simp [hnone])) fun hidle ↦ hidle f hf
  watched f hf _ hpath _ hclear :=
    idle.elim (fun hnone ↦ absurd hclear (by simp [hnone])) fun hidle ↦
      absurd hpath (by simp [hidle f hf])

end

/-! ## What the conditions are for

None of the conditions can be dropped.  For each of them there is a form with a list that stays out
of its way, and with the same list, but for the condition, something else is proposed. -/

/-- A schema with a list behind its fields, and the order of the computations then. -/
def beside (s : Schema) (list : Field) (order : List String) : Schema where
  fields := s.fields ++ [list]
  computeOrder := order

/-- **A list that gets in the way**: it may stand behind the fields of the form, which holds nothing
where the list is, and yet other writes are proposed. -/
structure Disturbs (s : Schema) (list : Field) (order : List String) (previous : Option Record)
    (next : Record) : Prop where
  accepted : ofFields defaultDepthLimit s.fields = .ok s
  accepted' : ofFields defaultDepthLimit (s.beside list order).fields = .ok (s.beside list order)
  kind : list.kind = .list
  vacant : list.Vacant next
  differs : ¬((s.beside list order).recompute {} defaultEpsilon previous next).writes.Perm
    (s.recompute {} defaultEpsilon previous next).writes

private theorem not_perm_of_path {ws more : List Write} {path : String}
    (h : path ∈ ws.map (·.path)) (hmore : path ∉ more.map (·.path)) : ¬ws.Perm more :=
  fun hperm ↦ hmore ((hperm.map _).subset h)

/-- What is cleared where a recomputation settles is among the writes that it proposes. -/
private theorem mem_paths_of_cleared {s : Schema} {flags : FormFlags} {epsilon : Binary64}
    {previous : Option Record} {next : Record} {path : String}
    (h : path ∈ (s.settling epsilon previous next).cleared.map (·.path)) :
    path ∈ (s.recompute flags epsilon previous next).writes.map (·.path) := by
  rw [recompute_eq, Update.writes, List.map_append]
  exact List.mem_append_right _ h

/-- A rate that nothing reacts to. -/
def rateSchema : Schema where
  fields := [{ name := "rate", component := "number" }]
  computeOrder := []

/-- Goods that may be computed as a whole. -/
def goods (computation : Option Computation) : Field where
  name := "goods"
  component := "list"
  computation := computation
  columns := [{ name := "qty", component := "number" }]

/-- The list must not be computed: if it is, it is written like any other field of the form. -/
theorem computed_list_disturbs :
    rateSchema.Spares (goods none) ∧
      rateSchema.Disturbs (goods (some { source := "rate * 2" })) ["goods"] none
        [("rate", .integer 1)] := by
  let s := rateSchema
  let s' := s.beside (goods (some { source := "rate * 2" })) ["goods"]
  let next : Record := [("rate", .integer 1)]
  have hsettling : s.settling defaultEpsilon none next = _ :=
    settling_of_clearable_eq_nil (by decide +kernel) none next
  have hsettling' : s'.settling defaultEpsilon none next = _ :=
    settling_of_clearable_eq_nil (by decide +kernel) none next
  refine ⟨.of_heads rfl rfl (by decide +kernel) (by decide +kernel), ofFields_of_order rfl (by cbv),
    ofFields_of_order rfl (by cbv), rfl, by decide +kernel, ?_⟩
  apply not_perm_of_path (by rw [recompute_eq, hsettling']; decide +kernel : "goods" ∈ _)
  rw [recompute_eq, hsettling]
  decide +kernel

/-- A rate and a total, which is held inside an order. -/
def totalSchema : Schema where
  fields := [{ name := "rate", component := "number" },
    { name := "order.total", component := "number", computation := some { source := "rate * 2" } }]
  computeOrder := ["order.total"]

/-- Under some name, extras that are cleared when the rate changes. -/
def extras (name : String) : Field where
  name := name
  component := "list"
  dependencies := ["rate"]
  clearOnChange := true

/-- The names of the list must lead apart from those of the form: a list that takes the place around
the total clears this as well. -/
theorem surrounding_list_disturbs :
    totalSchema.Spares (extras "extras") ∧
      totalSchema.Disturbs (extras "order") ["order.total"] (some [("rate", .integer 1)])
        [("rate", .integer 2)] := by
  let s := totalSchema
  let s' := s.beside (extras "order") ["order.total"]
  let previous : Option Record := some [("rate", .integer 1)]
  let next : Record := [("rate", .integer 2)]
  have hchanged' : s'.changed previous next = ["rate"] := by decide +kernel
  have hpass' : (s'.computePass defaultEpsilon next).writes.map (·.path) = ["order.total"] := by
    decide +kernel
  have htargets' : s'.clearTargets ["rate", "order.total"] ["rate"] = ["order"] := by cbv
  have hsettling : s.settling defaultEpsilon previous next = _ :=
    settling_of_clearable_eq_nil (by decide +kernel) previous next
  have hcleared : "order" ∈ (s'.settling defaultEpsilon previous next).cleared.map (·.path) :=
    mem_cleared_of_first_round hchanged' hpass' htargets' (by decide +kernel)
  refine ⟨.of_heads rfl rfl (by decide +kernel) (by decide +kernel), ofFields_of_order rfl (by cbv),
    ofFields_of_order rfl (by cbv), rfl, by decide +kernel, ?_⟩
  apply not_perm_of_path (mem_paths_of_cleared hcleared)
  rw [recompute_eq, hsettling]
  decide +kernel

/-- A note that is cleared with a quantity, of which the form knows nothing else. -/
def noteSchema : Schema where
  fields := [{ name := "price", component := "number" },
    { name := "note", component := "input", dependencies := ["qty"], clearOnChange := true }]
  computeOrder := []

/-- Supplies, of which the quantity reacts to something. -/
def supplies (dependencies : List String) : Field where
  name := "supplies"
  component := "list"
  columns := [{ name := "qty", component := "number", dependencies := dependencies }]

/-- What leads to a field that wants to be cleared must react to nothing: a quantity that reacts to
the price leads from there to the note. -/
theorem linking_column_disturbs :
    noteSchema.Spares (supplies []) ∧
      noteSchema.Disturbs (supplies ["price"]) []
        (some [("note", .text "due"), ("price", .integer 1)])
        [("note", .text "due"), ("price", .integer 2)] := by
  let s := noteSchema
  let s' := s.beside (supplies ["price"]) []
  let previous : Option Record := some [("note", .text "due"), ("price", .integer 1)]
  let next : Record := [("note", .text "due"), ("price", .integer 2)]
  have hchanged : s.changed previous next = ["price"] := by decide +kernel
  have hchanged' : s'.changed previous next = ["price"] := by decide +kernel
  have htargets : s.clearTargets ["price"] ["price"] = [] := by cbv
  have htargets' : s'.clearTargets ["price"] ["price"] = ["note"] := by cbv
  have hsettling : s.settling defaultEpsilon previous next = _ :=
    settling_of_clearTargets_eq_nil hchanged rfl htargets
  have hcleared : "note" ∈ (s'.settling defaultEpsilon previous next).cleared.map (·.path) :=
    mem_cleared_of_first_round hchanged' rfl htargets' (by decide +kernel)
  refine ⟨.of_heads rfl rfl (by decide +kernel) (by decide +kernel), ofFields_of_order rfl (by cbv),
    ofFields_of_order rfl (by cbv), rfl, by decide +kernel, ?_⟩
  apply not_perm_of_path (mem_paths_of_cleared hcleared)
  rw [recompute_eq, hsettling]
  decide +kernel

/-- Shops, of which each reacts to something. -/
def shops (dependencies : List String) : Field where
  name := "shops"
  component := "list"
  columns := [{ name := "shop", component := "select", dependencies := dependencies }]

/-- A dotted path to a field that wants to be cleared must not be watched for the list alone: a
region that has changed together with its country is kept only because a shop reacts to it. -/
theorem watching_column_disturbs :
    (regionSchema "ad.region").Spares (shops []) ∧
      (regionSchema "ad.region").Disturbs (shops ["ad.region"]) []
        (some [("country", .text "NO")])
        [("ad", .record [("region", .text "Skåne")]), ("country", .text "SE")] := by
  let s := regionSchema "ad.region"
  let s' := s.beside (shops ["ad.region"]) []
  let previous : Option Record := some [("country", .text "NO")]
  let next : Record := [("ad", .record [("region", .text "Skåne")]), ("country", .text "SE")]
  have hchanged : s.changed previous next = ["ad", "country"] := by decide +kernel
  have hchanged' : s'.changed previous next = ["ad", "ad.region", "country"] := by decide +kernel
  have htargets : s.clearTargets ["ad", "country"] ["ad", "country"] = ["ad.region"] := by cbv
  have htargets' : s'.clearTargets ["ad", "ad.region", "country"] ["ad", "ad.region", "country"] =
      [] := by cbv
  have hsettling' : s'.settling defaultEpsilon previous next = _ :=
    settling_of_clearTargets_eq_nil hchanged' rfl htargets'
  have hcleared : "ad.region" ∈ (s.settling defaultEpsilon previous next).cleared.map (·.path) :=
    mem_cleared_of_first_round hchanged rfl htargets (by decide +kernel)
  refine ⟨.of_heads rfl rfl (by decide +kernel) (by decide +kernel), ofFields_of_order rfl (by cbv),
    ofFields_of_order rfl (by cbv), rfl, by decide +kernel, mt List.Perm.symm ?_⟩
  apply not_perm_of_path (mem_paths_of_cleared hcleared)
  rw [recompute_eq, hsettling']
  decide +kernel

/-- Parts with an amount that is said to depend on the net amount of an order. -/
def parts : Field where
  name := "parts"
  component := "list"
  columns := [{ name := "amount", component := "number",
                computation := some { source := "qty", dependencies := some ["order.net"] } }]

/-- The order of the computations matters where a computation reads a member: a column that brings
the net amount of the order forward lets the gross amount see it. -/
theorem ordering_column_disturbs :
    memberSchema.Spares parts ∧
      ¬memberSchema.KeepsOrder (memberSchema.beside parts ["order.net", "amount", "gross"]) ∧
      memberSchema.Disturbs parts ["order.net", "amount", "gross"] none
        [("price", .integer 2)] := by
  let s := memberSchema
  let s' := s.beside parts ["order.net", "amount", "gross"]
  let next : Record := [("price", .integer 2)]
  have hsettling : s.settling defaultEpsilon none next = _ :=
    settling_of_clearable_eq_nil (by decide +kernel) none next
  have hsettling' : s'.settling defaultEpsilon none next = _ :=
    settling_of_clearable_eq_nil (by decide +kernel) none next
  refine ⟨.of_heads rfl rfl (by decide +kernel) (by decide +kernel), by decide +kernel,
    ofFields_of_order rfl (by cbv), ofFields_of_order rfl (by cbv), rfl, by decide +kernel, ?_⟩
  apply not_perm_of_path (by rw [recompute_eq, hsettling']; decide +kernel : "gross" ∈ _)
  rw [recompute_eq, hsettling]
  decide +kernel

/-! ## A schema with one more list -/

/-- **A schema with one more list**, which stays out of the way. -/
structure Extension (s : Schema) (list : Field) (s' : Schema) : Prop extends s.Spares list where
  fields_eq : s'.fields = s.fields ++ [list]
  mem_order_iff : ∀ name,
    name ∈ s.computeOrder ↔ ∃ f ∈ s.allFields, f.name = name ∧ f.computation.isSome
  mem_order_iff' : ∀ name,
    name ∈ s'.computeOrder ↔ ∃ f ∈ s'.allFields, f.name = name ∧ f.computation.isSome

/-- The schema with the computations in the order they have beside a list. -/
def reorderAs (s s' : Schema) : Schema :=
  s.reorder (s'.computeOrder.filter (s.computeOrder.contains ·))

namespace Extension

variable {s s' : Schema} {list : Field} {epsilon : Binary64} {flags : FormFlags}
  {previous : Option Record} {next values : Record} {name path : String} {f : Field} {w : Write}
  {p : Progress} {sources kept sources' kept' : List String} {st st' : Settling}

/-! ## Fields and names

The fields of the list come behind those of the form, and their names are other ones.  So whatever
goes by the name of a field of the form is answered as before. -/

section

variable (h : s.Extension list s')

include h

/-- All fields are those of the form and then those of the list. -/
theorem allFields_eq : s'.allFields = s.allFields ++ list.subtree := by
  rw [allFields, h.fields_eq, preorder_append, preorder, preorder, List.append_nil]
  rfl

theorem lists_eq : outerListsOf s'.fields = outerListsOf s.fields ++ [list] := by
  have hlist : list.outerLists = [list] := by
    obtain ⟨d, columns⟩ := list
    rw [Field.outerLists, if_pos h.kind]
  rw [h.fields_eq, outerListsOf_append, outerListsOf, outerListsOf, hlist, List.append_nil]

theorem name_notMem (hf : f ∈ s.allFields) : f.name ∉ list.names := fun hname ↦
  h.names _ hname f hf rfl

/-- Of other names the same is said. -/
theorem lastSaid?_eq {α : Type} (hname : name ∉ list.names) (said : Field → Option α) :
    lastSaid? s'.allFields name said = lastSaid? s.allFields name said := by
  rw [h.allFields_eq, lastSaid?_append_of_notMem hname]

theorem field?_eq (hname : name ∉ list.names) : s'.field? name = s.field? name := by
  rw [field?_eq_lastSaid?, field?_eq_lastSaid?, h.lastSaid?_eq hname]

/-- The columns of the list are names of rows besides. -/
theorem mem_rowNames_iff :
    name ∈ s'.rowNames ↔ name ∈ s.rowNames ∨ name ∈ (preorder list.columns).map (·.name) := by
  have hlist : rowNamesOf false [list] = (preorder list.columns).map (·.name) := by
    have hkind := h.kind
    obtain ⟨d, columns⟩ := list
    rw [rowNamesOf, rowNamesOf, Field.rowNames, decide_eq_true hkind, Bool.or_true,
      rowNamesOf_true, List.append_nil]
    rfl
  rw [rowNames, rowNames, Names.mem_ofList, Names.mem_ofList, h.fields_eq, rowNamesOf_append,
    List.mem_append, hlist]

/-- What the form computes is what is computed and not in the list. -/
theorem mem_computeOrder_iff : name ∈ s.computeOrder ↔
    name ∈ s'.computeOrder ∧ name ∉ list.names := by
  rw [h.mem_order_iff, h.mem_order_iff', h.allFields_eq]
  constructor
  · rintro ⟨f, hf, rfl, hcomputed⟩
    exact ⟨⟨f, List.mem_append_left _ hf, rfl, hcomputed⟩, h.name_notMem hf⟩
  · rintro ⟨⟨f, hf, rfl, hcomputed⟩, hname⟩
    refine ⟨f, (List.mem_append.1 hf).resolve_right fun hf ↦ hname ?_, rfl, hcomputed⟩
    exact List.mem_map_of_mem hf

/-- What is computed with the fields of the form is none of the list. -/
theorem notMem_of_form (hname : name ∈ s'.computeOrder) (hform : name ∉ s'.rowNames) :
    name ∉ list.names := by
  rw [h.mem_rowNames_iff, not_or] at hform
  obtain ⟨f, hf, rfl, hcomputed⟩ := (h.mem_order_iff' name).1 hname
  rw [h.allFields_eq, List.mem_append] at hf
  refine hf.elim (fun hf ↦ h.name_notMem hf) fun hf ↦ ?_
  obtain ⟨d, columns⟩ := list
  rw [Field.subtree, List.mem_cons] at hf
  rcases hf with rfl | hf
  · rw [h.uncomputed] at hcomputed
    cases hcomputed
  · exact absurd (List.mem_map_of_mem hf) hform.2

theorem mem_reorderAs_iff : name ∈ (s.reorderAs s').computeOrder ↔
    name ∈ s'.computeOrder ∧ name ∉ list.names := by
  have hmem : name ∈ (s.reorderAs s').computeOrder ↔
      name ∈ s'.computeOrder ∧ name ∈ s.computeOrder := by
    simp [reorderAs, reorder]
  rw [hmem, h.mem_computeOrder_iff, ← and_assoc, and_self]

end

/-! ## Computing beside the list

A pass computes the fields of the form, then the lists that were there, and the new list last.  As
the form holds nothing there, the new list has no rows; and as computed writes go elsewhere, it has
none when its turn comes either. -/

/-- A computed write to other fields leaves nothing where the list is. -/
theorem vacant_apply (h : s.Extension list s') {order : List String} (hvacant : list.Vacant values)
    (hw : (s.reorder order).Computes epsilon values w) : list.Vacant (values.apply w) := by
  cases hw with
  | field hname hform hfield hw =>
    rw [Declaration.computedWrite?_eq_some hw]
    obtain ⟨hmem, rfl⟩ := mem_of_field? hfield
    exact hvacant.write (fun name hname ↦ h.apart name hname _ hmem) _
  | cell hlist hcolumn hrow hw =>
    rw [Declaration.computedWrite?_eq_some hw]
    have hmem := mem_allFields_of_mem_lists hlist
    exact hvacant.write (fun name hname ↦ (h.apart name hname _ hmem).cellPath _ _) _

/-- A field of the form is computed as before. -/
theorem computeField_eq (h : s.Extension list s') (hname : name ∉ list.names) :
    s'.computeField epsilon p name = s.computeField epsilon p name := by
  rw [computeField, computeField, h.field?_eq hname]

theorem computedCells_eq (h : s.Extension list s') {other : Field}
    (hother : other ∈ outerListsOf s.fields) :
    s'.computedCells other = (s.reorderAs s').computedCells other := by
  rw [computedCells, computedCells, reorderAs, reorder, List.filterMap_filter]
  refine List.filterMap_congr fun name hname ↦ ?_
  split
  · rfl
  · rename_i hnew
    refine List.find?_eq_none.2 fun c hc hcname ↦ hnew ?_
    rw [beq_iff_eq] at hcname
    have hmem := (cons_cellsOf_sublist_preorder (mem_allFields_of_mem_lists hother)).subset
      (List.mem_cons_of_mem _ hc)
    rw [List.contains_iff_mem, h.mem_computeOrder_iff]
    exact ⟨hname, hcname ▸ h.name_notMem hmem⟩

/-- The rows of the other lists are computed as before. -/
theorem computeRows_eq (h : s.Extension list s') {other : Field}
    (hother : other ∈ outerListsOf s.fields) :
    s'.computeRows epsilon p other = (s.reorderAs s').computeRows epsilon p other := by
  rw [computeRows, computeRows, h.computedCells_eq hother]

/-- Where there are no rows nothing is computed. -/
theorem computeRows_of_vacant (hvacant : list.Vacant p.values) :
    s'.computeRows epsilon p list = p := by
  have hcount : p.values.rowCount list.name = 0 := by
    have hempty := hvacant list.name List.mem_cons_self
    rw [rowCount]
    split
    · rename_i rows hrows
      rw [hrows, Value.isEmpty, List.isEmpty_iff] at hempty
      rw [hempty, List.length_nil]
    · rfl
  rw [computeRows, hcount]
  split <;> rfl

/-- The computations of the form, apart from those of the list, in their order. -/
theorem form_eq (h : s.Extension list s') :
    s'.computeOrder.filter (fun name ↦ !s'.rowNames.contains name) =
      (s.reorderAs s').computeOrder.filter fun name ↦ !s.rowNames.contains name := by
  rw [reorderAs, reorder, List.filter_filter]
  refine List.filter_congr fun name hname ↦ ?_
  rw [Bool.eq_iff_iff]
  simp only [Bool.and_eq_true, Bool.not_eq_true', List.contains_eq_mem, decide_eq_true_eq,
    decide_eq_false_iff_not, h.mem_computeOrder_iff]
  constructor
  · intro hform
    exact ⟨fun hrow ↦ hform (h.mem_rowNames_iff.2 (.inl hrow)), hname, h.notMem_of_form hname hform⟩
  · rintro ⟨hrow, -, hnew⟩ hrow'
    refine hnew ?_
    obtain ⟨d, columns⟩ := list
    rw [Field.names, Field.subtree]
    exact List.mem_cons_of_mem _ ((h.mem_rowNames_iff.1 hrow').resolve_left hrow)

theorem vacant_computePass (h : s.Extension list s') {order : List String}
    (hvacant : list.Vacant values) :
    list.Vacant ((s.reorder order).computePass epsilon values).values :=
  computePass_induction (P := fun p ↦ list.Vacant p.values) hvacant fun _ _ hp hw ↦
    h.vacant_apply hp hw

/-- **A pass beside the list** computes what it does without it, in the order of now. -/
theorem computePass_eq (h : s.Extension list s') (hvacant : list.Vacant values) :
    s'.computePass epsilon values = (s.reorderAs s').computePass epsilon values := by
  have hfields : ∀ p : Progress, ((s.reorderAs s').computeOrder.filter fun name ↦
        !s.rowNames.contains name).foldl (s'.computeField epsilon) p =
      ((s.reorderAs s').computeOrder.filter fun name ↦ !s.rowNames.contains name).foldl
        ((s.reorderAs s').computeField epsilon) p := fun p ↦
    List.foldl_ext _ _ _ fun p name hname ↦
      h.computeField_eq (h.mem_reorderAs_iff.1 (List.mem_filter.1 hname).1).2
  have hrows : ∀ p : Progress, (outerListsOf s.fields).foldl (s'.computeRows epsilon) p =
      (outerListsOf s.fields).foldl ((s.reorderAs s').computeRows epsilon) p := fun p ↦
    List.foldl_ext _ _ _ fun p other hother ↦ h.computeRows_eq hother
  rw [computePass, h.form_eq, h.lists_eq, List.foldl_append, hfields, hrows]
  exact computeRows_of_vacant (h.vacant_computePass hvacant)

/-! ## Clearing beside the list

The list may add ways along which something reacts, and it may be cleared itself.  The ways that it
adds end in the list as far as the fields to be cleared are concerned, and clearing what is empty
writes nothing. -/

section

variable (h : s.Extension list s')

include h

theorem notMem_of_clearable (hclear : name ∈ s.clearable) : name ∉ list.names := by
  obtain ⟨f, hf, -⟩ := mem_clearable_iff.1 hclear
  obtain ⟨hmem, rfl⟩ := mem_of_field? hf
  exact h.name_notMem hmem

theorem mem_clearable_iff_of_notMem (hname : name ∉ list.names) :
    name ∈ s'.clearable ↔ name ∈ s.clearable := by
  rw [mem_clearable_iff, mem_clearable_iff, h.field?_eq hname]

/-- What is to be cleared of the list is one of the names that the form is asked for. -/
theorem mem_exposedNames (hname : name ∈ list.names) (hclear : name ∈ s'.clearable) :
    name ∈ list.exposedNames := by
  obtain ⟨f, hf, hfclear⟩ := mem_clearable_iff.1 hclear
  obtain ⟨hmem, rfl⟩ := mem_of_field? hf
  rw [h.allFields_eq, List.mem_append] at hmem
  have hlist := hmem.resolve_left fun hold ↦ h.name_notMem hold hname
  exact List.mem_cons_of_mem _ (List.mem_map_of_mem (List.mem_filter.2 ⟨hlist, hfclear⟩))

/-- Besides what the form watches, what the fields of the list react to is watched. -/
theorem mem_watched_iff :
    path ∈ s'.watched ↔ path ∈ s.watched ∨ ∃ f ∈ list.subtree, path ∈ f.reactsTo := by
  simp only [watched, h.allFields_eq, Names.mem_ofList, List.mem_flatMap, List.mem_append,
    or_and_right, exists_or]

theorem mem_next_iff : name ∈ s'.dependents.next path ↔
    name ∈ s.dependents.next path ∨ ∃ f ∈ list.subtree, f.name = name ∧ path ∈ f.reactsTo := by
  simp only [mem_next_dependents, h.allFields_eq, List.mem_append, or_and_right, exists_or]

/-- **Nothing more leads to a field that wants to be cleared.** -/
theorem mem_downstream_iff (hclear : name ∈ s.clearable) :
    name ∈ s'.dependents.downstream path ↔ name ∈ s.dependents.downstream path := by
  rw [Graph.mem_downstream_iff, Graph.mem_downstream_iff, Graph.leads_iff_of_next]
  · exact fun a b hb ↦ h.mem_next_iff.2 (.inl hb)
  · -- a new edge ends at a field of the list, and a field that leads on has no edge to it
    intro a b hb hnew
    obtain ⟨f, hf, rfl, hreacts⟩ := (h.mem_next_iff.1 hb).resolve_left hnew
    have hne : f.name ≠ name := by
      rintro rfl
      exact h.notMem_of_clearable hclear (List.mem_map_of_mem hf)
    refine ⟨hne, fun hlead ↦ ?_⟩
    rw [h.inert f hf ⟨name, hclear, Graph.mem_downstream_iff.2 ⟨hne.symm, hlead⟩⟩] at hreacts
    exact List.not_mem_nil hreacts

end

/-- **Sources and kept names that come to the same** for the fields of the form.  The list may add
sources, but none from which anything leads to those fields. -/
structure SameCauses (s : Schema) (sources kept sources' kept' : List String) : Prop where
  sources : ∀ path ∈ s.watched, path ∈ sources ↔ path ∈ sources'
  kept : ∀ name ∈ s.clearable, name ∈ kept ↔ name ∈ kept'

/-- The same fields of the form are to be cleared. -/
theorem clearTargets_eq (h : s.Extension list s')
    (hcauses : SameCauses s sources kept sources' kept') :
    (s'.clearTargets sources' kept').filter (fun name ↦ !list.names.contains name) =
      s.clearTargets sources kept := by
  refine Names.ext ((pairwise_clearTargets ..).filter _) (pairwise_clearTargets ..) fun name ↦ ?_
  rw [List.mem_filter, mem_clearTargets_iff, mem_clearTargets_iff, Bool.not_eq_true',
    List.contains_eq_mem, decide_eq_false_iff_not]
  constructor
  · rintro ⟨⟨hclear, hkept, source, hsource, hdown⟩, hname⟩
    replace hclear := (h.mem_clearable_iff_of_notMem hname).1 hclear
    replace hdown := (h.mem_downstream_iff hclear).1 hdown
    exact ⟨hclear, fun hold ↦ hkept ((hcauses.kept name hclear).1 hold), source,
      (hcauses.sources source (mem_watched_of_mem_downstream hdown)).2 hsource, hdown⟩
  · rintro ⟨hclear, hkept, source, hsource, hdown⟩
    have hname := h.notMem_of_clearable hclear
    exact ⟨⟨(h.mem_clearable_iff_of_notMem hname).2 hclear,
      fun hnew ↦ hkept ((hcauses.kept name hclear).2 hnew), source,
      (hcauses.sources source (mem_watched_of_mem_downstream hdown)).1 hsource,
      (h.mem_downstream_iff hclear).2 hdown⟩, hname⟩

/-- Clearing another field leaves nothing where the list is. -/
theorem vacant_clear (h : s.Extension list s') (hclear : name ∈ s.clearable)
    (hvacant : list.Vacant p.values) :
    list.Vacant (p.extend (s.clearingWrite? p.values name)).values := by
  obtain ⟨f, hf, -⟩ := mem_clearable_iff.1 hclear
  obtain ⟨hmem, rfl⟩ := mem_of_field? hf
  rw [clearingWrite?]
  split
  · exact hvacant
  · exact hvacant.write (fun name hname ↦ h.apart name hname f hmem) _

/-- The names of the list are passed over, since the form holds nothing there. -/
theorem clearEach_eq (h : s.Extension list s') {names : List String}
    (hvacant : list.Vacant p.values) (hnames : ∀ name ∈ names, name ∈ s'.clearable) :
    s'.clearEach names p = s.clearEach (names.filter fun name ↦ !list.names.contains name) p := by
  induction names generalizing p with
  | nil => rfl
  | cons name names ih =>
    obtain ⟨hclear, hrest⟩ := List.forall_mem_cons.1 hnames
    rw [clearEach, List.filter_cons]
    by_cases hname : name ∈ list.names
    · have hnone : s'.clearingWrite? p.values name = none := by
        rw [clearingWrite?, if_pos (hvacant name (h.mem_exposedNames hname hclear))]
      rw [hnone, if_neg (by simpa using hname)]
      exact ih hvacant hrest
    · have hwrite : s'.clearingWrite? p.values name = s.clearingWrite? p.values name := by
        rw [clearingWrite?, clearingWrite?, h.field?_eq hname]
      rw [hwrite, if_pos (by simpa using hname), clearEach]
      exact ih (h.vacant_clear ((h.mem_clearable_iff_of_notMem hname).1 hclear) hvacant) hrest

theorem vacant_clearEach (h : s.Extension list s') {names : List String}
    (hvacant : list.Vacant p.values) (hnames : ∀ name ∈ names, name ∈ s.clearable) :
    list.Vacant (s.clearEach names p).values := by
  induction names generalizing p with
  | nil => exact hvacant
  | cons name names ih =>
    obtain ⟨hclear, hrest⟩ := List.forall_mem_cons.1 hnames
    exact ih (h.vacant_clear hclear hvacant) hrest

/-- **A round of clearing beside the list** clears what it does without it. -/
theorem clearRound_eq (h : s.Extension list s')
    (hcauses : SameCauses s sources kept sources' kept') (hvacant : list.Vacant values) :
    s'.clearRound sources' kept' values = (s.reorderAs s').clearRound sources kept values := by
  rw [clearRound, h.clearEach_eq hvacant fun name hname ↦ (mem_clearTargets_iff.1 hname).1,
    h.clearTargets_eq hcauses, reorderAs, clearRound_reorder]
  rfl

theorem vacant_clearRound (h : s.Extension list s') {order : List String}
    (hvacant : list.Vacant values) :
    list.Vacant ((s.reorder order).clearRound sources kept values).values := by
  rw [clearRound_reorder]
  exact h.vacant_clearEach hvacant fun _ hname ↦ (mem_clearTargets_iff.1 hname).1

/-! ## Settling beside the list

Round by round the two recomputations do the same, although they do not have the same reasons: of
the sources and the kept names only those count which have to do with the fields of the form
(`SameCauses`). -/

/-- **The same changes** are found beside the list, where the form looks. -/
theorem mem_changed_iff (h : s.Extension list s')
    (hpath : path ∈ s'.watched → isDotted path = true → path ∈ s.watched) :
    path ∈ s'.changed previous next ↔ path ∈ s.changed previous next := by
  cases previous with
  | none => exact Iff.rfl
  | some previous =>
    rw [mem_changed_some (s := s'), mem_names_dependents]
    constructor
    · rintro (hflat | ⟨hwatched, hdiffer⟩)
      · exact mem_changed_some.2 (.inl hflat)
      · have haltered : Altered (some previous) next path := hdiffer
        refine haltered.mem_changed fun hover ↦ hover.2.1 ?_
        exact mem_names_dependents.2 (hpath hwatched hover.1)
    · rw [mem_changed_some, mem_names_dependents]
      exact Or.imp_right fun hwatched ↦ ⟨h.mem_watched_iff.2 (.inl hwatched.1), hwatched.2⟩

theorem sameCauses_changed (h : s.Extension list s') (paths : List String) :
    SameCauses s (s.changed previous next ++ paths) (s.changed previous next)
      (s'.changed previous next ++ paths) (s'.changed previous next) where
  sources path hwatched := by
    rw [List.mem_append, List.mem_append, h.mem_changed_iff fun _ _ ↦ hwatched]
  kept name hclear := by
    refine (h.mem_changed_iff fun hwatched hdot ↦ ?_).symm
    refine (h.mem_watched_iff.1 hwatched).elim id fun ⟨f, hf, hreacts⟩ ↦ ?_
    exact h.watched f hf name hreacts hdot hclear

/-- Rounds that come to the same, with the list and without it. -/
structure SameRounds (s : Schema) (list : Field) (sources kept : List String) (st : Settling)
    (sources' kept' : List String) (st' : Settling) : Prop
    extends SameCauses s sources kept sources' kept' where
  settling : st = st'
  vacant : list.Vacant st.values

/-- **One round more** of clearing and computing. -/
theorem SameRounds.round (h : s.Extension list s')
    (hrounds : SameRounds s list sources kept st sources' kept' st') :
    let round := (s.reorderAs s').clearRound sources kept st.values
    let pass := (s.reorderAs s').computePass epsilon round.values
    let round' := s'.clearRound sources' kept' st'.values
    let pass' := s'.computePass epsilon round'.values
    SameRounds s list ((round.writes ++ pass.writes).map (·.path))
      (kept ++ round.writes.map (·.path))
      ⟨pass.values, mergeWrites st.computed pass.writes, st.cleared ++ round.writes⟩
      ((round'.writes ++ pass'.writes).map (·.path)) (kept' ++ round'.writes.map (·.path))
      ⟨pass'.values, mergeWrites st'.computed pass'.writes, st'.cleared ++ round'.writes⟩ := by
  obtain ⟨hcauses, rfl, hvacant⟩ := hrounds
  intro round pass
  have hcleared : list.Vacant round.values := h.vacant_clearRound hvacant
  rw [h.clearRound_eq hcauses hvacant]
  intro round' pass'
  have hpass : pass' = pass := h.computePass_eq hcleared
  rw [hpass]
  refine ⟨⟨fun _ _ ↦ Iff.rfl, fun name hclear ↦ ?_⟩, rfl, h.vacant_computePass hcleared⟩
  rw [List.mem_append, List.mem_append, hcauses.kept name hclear]

/-- **What the form settles on beside the list** is what it settles on without it, its computations
in the order of now. -/
theorem settling_eq (h : s.Extension list s') (epsilon : Binary64) (previous : Option Record)
    (hvacant : list.Vacant next) :
    s'.settling epsilon previous next = (s.reorderAs s').settling epsilon previous next := by
  have hpass : s'.computePass epsilon next = (s.reorderAs s').computePass epsilon next :=
    h.computePass_eq hvacant
  have hstart : ∀ paths computed, SameRounds s list (s.changed previous next ++ paths)
      (s.changed previous next) ⟨((s.reorderAs s').computePass epsilon next).values, computed, []⟩
      (s'.changed previous next ++ paths) (s'.changed previous next)
      ⟨((s.reorderAs s').computePass epsilon next).values, computed, []⟩ := fun paths _ ↦
    ⟨h.sameCauses_changed paths, rfl, h.vacant_computePass hvacant⟩
  obtain ⟨_, _, _, _, hlast⟩ := settle_in_step (R := SameRounds s list) (hstart _ _)
    (fun sources kept st sources' kept' st' hrounds ↦ by
      obtain ⟨hcauses, rfl, hvacant⟩ := hrounds
      rw [h.clearRound_eq hcauses hvacant])
    fun _ _ _ _ _ _ hrounds ↦ hrounds.round h
  rw [settling, settling, hpass]
  exact hlast.settling.symm

/-! ## The order of the computations

The computations of the form come in the order in which the longer schema has them.  None of them
reads what comes behind it in this order either, so it is one in which the form alone could have
computed. -/

/-- Beside the list the form computes the same, in some order. -/
theorem perm_reorderAs (h : s.Extension list s') (hs : s.InOrder) (hs' : s'.InOrder) :
    s.computeOrder.Perm (s.reorderAs s').computeOrder := by
  have hnodup : s.computeOrder.Nodup := hs.imp And.left
  have hnodup' : s'.computeOrder.Nodup := hs'.imp And.left
  refine (List.perm_ext_iff_of_nodup hnodup (hnodup'.filter _)).2 fun name ↦ ?_
  exact h.mem_computeOrder_iff.trans h.mem_reorderAs_iff.symm

/-- The order that the computations have beside the list is one of theirs. -/
theorem inOrder_reorderAs (h : s.Extension list s') (hs' : s'.InOrder) :
    (s.reorderAs s').InOrder := by
  have hpairs : (s.reorderAs s').computeOrder.Pairwise fun a b ↦ a ≠ b ∧ s'.Avoids a b :=
    hs'.filter _
  refine hpairs.imp_of_mem fun ha _ ⟨hne, havoids⟩ ↦ ⟨hne, fun f hf ↦ havoids f ?_⟩
  rw [h.field?_eq (h.mem_reorderAs_iff.1 ha).2]
  exact hf

/-! ## What is said of the fields of the form -/

/-- The state of another field is the same for the same values. -/
theorem find?_states (h : s.Extension list s') (hname : name ∉ list.names) :
    (s'.states values flags).find? name = (s.states values flags).find? name := by
  rw [Schema.find?_states, Schema.find?_states, h.field?_eq hname]

/-- So is its default. -/
theorem find?_defaults (h : s.Extension list s') (hname : name ∉ list.names) :
    s'.defaults.find? name = s.defaults.find? name := by
  rw [Schema.find?_defaults, Schema.find?_defaults, default?, default?, h.lastSaid?_eq hname]

/-- **What is proposed beside the list** is what the form proposes without it, its computations in
the order of now. -/
theorem recompute_eq (h : s.Extension list s') (flags : FormFlags) (epsilon : Binary64)
    (previous : Option Record) (hvacant : list.Vacant next) :
    let u := (s.reorderAs s').recompute flags epsilon previous next
    let u' := s'.recompute flags epsilon previous next
    u'.computed = u.computed ∧ u'.cleared = u.cleared ∧
      ∀ f ∈ s.allFields, u'.states.find? f.name = u.states.find? f.name := by
  have hsettling := h.settling_eq epsilon previous hvacant
  refine ⟨congrArg Settling.computed hsettling, congrArg Settling.cleared hsettling, fun f hf ↦ ?_⟩
  rw [Schema.recompute_eq, Schema.recompute_eq, hsettling, h.find?_states (h.name_notMem hf)]
  rfl

end Extension

variable {s s' : Schema} {list : Field} {limit : Nat} {fields : List Field} {next : Record}

/-- A list that stays out of the way extends an accepted schema, if that is accepted with it. -/
theorem Spares.extension (h : s.Spares list) (hs : ofFields limit fields = .ok s)
    (hs' : ofFields limit (fields ++ [list]) = .ok s') : s.Extension list s' where
  toSpares := h
  fields_eq := by rw [(ofFields_eq_ok_iff.1 hs').2.1, (ofFields_eq_ok_iff.1 hs).2.1]
  mem_order_iff _ := mem_computeOrder_iff hs
  mem_order_iff' _ := mem_computeOrder_iff hs'

/-- **A list that stays out of the way changes nothing for the fields that were there.**  While the
form holds nothing where the list is, the same writes are proposed, and the fields have the same
states and the same defaults.  The computed writes are in another order if the list has changed the
order of the computations; this makes no other difference if they are untangled. -/
theorem recompute_beside_list (hs : ofFields limit fields = .ok s)
    (hs' : ofFields limit (fields ++ [list]) = .ok s') (h : s.Spares list) (flags : FormFlags)
    (epsilon : Binary64) (previous : Option Record) (hvacant : list.Vacant next)
    (horder : s.KeepsOrder s' ∨ s.Untangled ∧ next.WellFormed) :
    let u := s.recompute flags epsilon previous next
    let u' := s'.recompute flags epsilon previous next
    u'.computed.Perm u.computed ∧ (s.KeepsOrder s' → u'.computed = u.computed) ∧
      u'.cleared = u.cleared ∧
      ∀ f ∈ s.allFields, u'.states.find? f.name = u.states.find? f.name ∧
        s'.defaults.find? f.name = s.defaults.find? f.name := by
  have hext := h.extension hs hs'
  have hinOrder := inOrder_of_ofFields hs
  have hinOrder' := inOrder_of_ofFields hs'
  have hkept : s.KeepsOrder s' → s.reorderAs s' = s := fun horder ↦ by
    rw [reorderAs, horder, reorder]
  intro u u'
  let v := (s.reorderAs s').recompute flags epsilon previous next
  obtain ⟨hcomputed, hcleared, hstates⟩ : u'.computed = v.computed ∧ u'.cleared = v.cleared ∧ _ :=
    hext.recompute_eq flags epsilon previous hvacant
  have hreorder : u.computed.Perm v.computed ∧ u.cleared = v.cleared ∧ u.states = v.states := by
    rcases horder with horder | ⟨huntangled, hnext⟩
    · have hv : v = u := congrArg (·.recompute flags epsilon previous next) (hkept horder)
      rw [hv]
      exact ⟨.refl _, rfl, rfl⟩
    · exact huntangled.recompute_reorder hinOrder (hext.perm_reorderAs hinOrder hinOrder')
        (hext.inOrder_reorderAs hinOrder') flags epsilon previous hnext
  refine ⟨hcomputed ▸ hreorder.1.symm, fun horder ↦ ?_, hcleared.trans hreorder.2.1.symm,
    fun f hf ↦ ⟨?_, hext.find?_defaults (hext.name_notMem hf)⟩⟩
  · rw [hcomputed]
    exact congrArg (fun t : Schema ↦ (t.recompute flags epsilon previous next).computed)
      (hkept horder)
  · rw [hstates f hf, hreorder.2.2]

/-- A bill on which the note is cleared when the price changes. -/
def billSchema : Schema where
  fields := [{ name := "price", component := "number" },
    { name := "note", component := "input", dependencies := ["price"], clearOnChange := true },
    { name := "net", component := "number", computation := some { source := "price * 2" } },
    { name := "tax", component := "number", computation := some { source := "price * 3" } }]
  computeOrder := ["net", "tax"]

/-- Lines with amounts that follow from the tax. -/
def lines : Field where
  name := "lines"
  component := "list"
  columns := [{ name := "qty", component := "number" },
    { name := "amount", component := "number", computation := some { source := "qty * tax" } }]

/-- The bill with lines, of which the amounts come behind the tax but before the net price. -/
def linedBillSchema : Schema where
  fields := billSchema.fields ++ [lines]
  computeOrder := ["tax", "amount", "net"]

theorem ofFields_billSchema : ofFields defaultDepthLimit billSchema.fields = .ok billSchema :=
  ofFields_of_order rfl (by cbv)

theorem ofFields_linedBillSchema :
    ofFields defaultDepthLimit (billSchema.fields ++ [lines]) = .ok linedBillSchema :=
  ofFields_of_order (s := linedBillSchema) rfl (by cbv)

theorem billSchema_spares_lines : billSchema.Spares lines :=
  .of_plain (by decide +kernel) (by decide +kernel) rfl rfl (by decide +kernel) (by decide +kernel)

theorem untangled_billSchema : billSchema.Untangled where
  distinct := by decide +kernel
  plain := by decide +kernel
  looksBack f hf := by
    have hmembers : ∀ f ∈ billSchema.allFields, ∀ c ∈ f.computation, ∀ path ∈ c.inputs,
        isDotted path = true → ∀ name ∈ billSchema.computeOrder,
          (segments path).head? ≠ some name := by decide +kernel
    exact looksBack_of_head? (by decide +kernel) ofFields_billSchema (List.Subset.refl _)
      (fun _ _ _ _ _ hlist ↦ absurd hlist List.not_mem_nil) (hmembers f hf)

/-- Lines change the order of the computations of a bill, and nothing else. -/
theorem bill_beside_lines :
    ¬billSchema.KeepsOrder linedBillSchema ∧
      let u := billSchema.recompute {} (.finite .zero) (some [("price", .integer 1)])
        [("note", .text "due"), ("price", .integer 2)]
      let u' := linedBillSchema.recompute {} (.finite .zero) (some [("price", .integer 1)])
        [("note", .text "due"), ("price", .integer 2)]
      u'.computed.Perm u.computed ∧ u'.cleared = u.cleared ∧
        ∀ f ∈ billSchema.allFields, u'.states.find? f.name = u.states.find? f.name ∧
          linedBillSchema.defaults.find? f.name = billSchema.defaults.find? f.name := by
  have hnext : Record.WellFormed [("note", .text "due"), ("price", .integer 2)] :=
    .record (by decide) (by simp [Value.WellFormed.integer, Value.WellFormed.text])
  obtain ⟨hcomputed, -, hrest⟩ := recompute_beside_list ofFields_billSchema
    ofFields_linedBillSchema billSchema_spares_lines {} (.finite .zero)
    (some [("price", .integer 1)]) (by decide +kernel) (.inr ⟨untangled_billSchema, hnext⟩)
  exact ⟨by decide, hcomputed, hrest⟩

/-- A customer with a name. -/
def customerFields : List Field :=
  [{ name := "name", component := "input", defaultValue := some (.text "a") }]

/-- Items with names of their own. -/
def items : Field where
  name := "items"
  component := "list"
  columns := [{ name := "name", component := "input", defaultValue := some (.text "b") }]

/-- **A column takes the default of a field of its name**: the list is accepted beside the field,
and of the two defaults that of the column counts. -/
theorem column_takes_default :
    items.kind = .list ∧
      ofFields defaultDepthLimit customerFields = .ok ⟨customerFields, []⟩ ∧
      ofFields defaultDepthLimit (customerFields ++ [items]) = .ok ⟨customerFields ++ [items], []⟩ ∧
      (Schema.mk customerFields []).defaults.find? "name" = some (.text "a") ∧
      (Schema.mk (customerFields ++ [items]) []).defaults.find? "name" = some (.text "b") :=
  ⟨rfl, ofFields_of_order (s := ⟨customerFields, []⟩) rfl (by cbv),
    ofFields_of_order (s := ⟨customerFields ++ [items], []⟩) rfl (by cbv), rfl, rfl⟩

end Schema

end ReactiveForm
