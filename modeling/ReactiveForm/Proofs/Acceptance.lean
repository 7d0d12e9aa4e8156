import ReactiveForm.Proofs.Cycles
import ReactiveForm.Proofs.Preorder

/-!
# Which schemas are accepted

A schema is refused for one of five reasons: a name is blank, or taken by a sibling; a condition is
too deep; the text of a rule is no pattern; computations read each other in a circle.  All but the
last are about a field where it stands.  `Acceptable` puts them together without saying in which
order they are looked at, and `Standing.Fault` says what is wrong with one field, of several things
the first one that is looked at.

`Schema.ofFieldsBy_decides` has all that can be said of the outcome.  A schema is accepted if and
only if its fields are acceptable and its computations have no cycle.  What is accepted is known by
the places of its fields: their order, the last field of each name, and the last default value.
What is refused is refused for the fault at the first place that has one; a cycle is reported only
if there is none.  All this holds whatever the texts are that are taken for patterns.

The walk through the tree stops at the first fault it meets.  That it meets them in the order of
their places is `treeFaultOf?_eq_findSome?`; that it overlooks none is `faultless_iff`.
-/

set_option autoImplicit false
namespace ReactiveForm

variable {compiles : String → Bool} {limit : Nat} {fs : List Field} {f : Field} {d : Declaration}
  {parent name input : String} {taken : List String} {x : Standing} {e : SchemaError}

/-! ## Single fields -/

/-- **A declaration that nothing is wrong with in itself.** -/
def Declaration.IsSound (limit : Nat) (d : Declaration) (compiles : String → Bool := isPattern) :
    Prop :=
  isBlankText d.name = false ∧ d.fault? limit compiles = none

theorem Declaration.mem_patternSources_iff {source : String} : source ∈ d.patternSources ↔
    ∃ r ∈ d.rules, r.kind = .pattern ∧ r.argument = some (.text source) := by
  rw [patternSources, List.mem_filterMap]
  refine exists_congr fun r ↦ and_congr_right fun _ ↦ ?_
  rw [Rule.patternSource?]
  split
  · rename_i text hkind hargument
    simp [hkind, hargument]
  · rename_i hother
    simp only [reduceCtorEq, false_iff, not_and]
    exact fun hkind ↦ hother source hkind

/-- The first condition that is too deep. -/
theorem Declaration.find?_deep_eq_some_iff {c : Condition} :
    (d.conditions.find? fun c ↦ limit < c.depth) = some c ↔ ∃ before after,
      d.conditions = before ++ c :: after ∧ (∀ b ∈ before, b.depth ≤ limit) ∧
        limit < c.depth := by
  rw [List.find?_eq_some_iff_append]
  simp only [decide_eq_true_eq, Bool.not_eq_true', decide_eq_false_iff_not, Nat.not_lt]
  exact ⟨fun ⟨hdeep, before, after, happend, hbefore⟩ ↦ ⟨before, after, happend, hbefore, hdeep⟩,
    fun ⟨before, after, happend, hbefore, hdeep⟩ ↦ ⟨hdeep, before, after, happend, hbefore⟩⟩

/-- The first text that is no pattern. -/
theorem Declaration.find?_refused_eq_some_iff {source : String} :
    (d.patternSources.find? fun p ↦ !compiles (Pattern.ofLiteral p)) = some source ↔
      ∃ before after, d.patternSources = before ++ source :: after ∧
        (∀ b ∈ before, compiles (Pattern.ofLiteral b) = true) ∧
        compiles (Pattern.ofLiteral source) = false := by
  rw [List.find?_eq_some_iff_append]
  simp only [Bool.not_eq_true', Bool.not_not]
  exact ⟨fun ⟨hrefused, before, after, happend, hbefore⟩ ↦
      ⟨before, after, happend, hbefore, hrefused⟩,
    fun ⟨before, after, happend, hbefore, hrefused⟩ ↦
      ⟨hrefused, before, after, happend, hbefore⟩⟩

theorem Declaration.fault?_eq_none_iff : d.fault? limit compiles = none ↔
    (∀ c ∈ d.conditions, c.depth ≤ limit) ∧
      ∀ source ∈ d.patternSources, compiles (Pattern.ofLiteral source) = true := by
  rw [fault?]
  cases hdeep : d.conditions.find? fun c ↦ limit < c.depth with
  | some c =>
    have hc := List.find?_some hdeep
    simp only [reduceCtorEq, false_iff, not_and]
    intro hall
    exact absurd (hall c (List.mem_of_find?_eq_some hdeep)) (by simpa using hc)
  | none =>
    have hshallow : ∀ c ∈ d.conditions, c.depth ≤ limit := by simpa using hdeep
    simp only [Option.map_eq_none_iff, List.find?_eq_none, Bool.not_eq_true', Bool.not_eq_false]
    exact ⟨fun hpatterns ↦ ⟨hshallow, hpatterns⟩, And.right⟩

/-- What is wrong with a field where it stands, if anything. -/
def Standing.fault? (compiles : String → Bool) (limit : Nat) (x : Standing) :
    Option SchemaError :=
  x.field.faultAmong? limit x.parent x.earlier compiles

/-- **What is wrong with a field where it stands**, of several things the first one that is looked
at: its name, then its conditions, then its patterns. -/
inductive Standing.Fault (compiles : String → Bool) (limit : Nat) (x : Standing) :
    SchemaError → Prop where
  | blank (hblank : isBlankText x.field.name = true) : Fault compiles limit x (.emptyName x.parent)
  | taken (hnamed : isBlankText x.field.name = false) (htaken : x.field.name ∈ x.earlier) :
      Fault compiles limit x (.duplicateName x.field.name x.parent)
  | deep {before after : List Condition} {c : Condition}
      (hnamed : isBlankText x.field.name = false) (hnew : x.field.name ∉ x.earlier)
      (hc : x.field.conditions = before ++ c :: after) (hbefore : ∀ b ∈ before, b.depth ≤ limit)
      (hdeep : limit < c.depth) :
      Fault compiles limit x (.conditionTooDeep x.field.name c.depth limit)
  | pattern {before after : List String} {source : String}
      (hnamed : isBlankText x.field.name = false) (hnew : x.field.name ∉ x.earlier)
      (hshallow : ∀ c ∈ x.field.conditions, c.depth ≤ limit)
      (hsource : x.field.patternSources = before ++ source :: after)
      (hbefore : ∀ b ∈ before, compiles (Pattern.ofLiteral b) = true)
      (hrefused : compiles (Pattern.ofLiteral source) = false) :
      Fault compiles limit x (.invalidPattern x.field.name source)

theorem Standing.fault?_eq_some_iff :
    x.fault? compiles limit = some e ↔ x.Fault compiles limit e := by
  rw [fault?, Declaration.faultAmong?]
  constructor
  · intro h
    split at h
    · cases h
      exact .blank ‹_›
    · rename_i hnamed
      rw [Bool.not_eq_true] at hnamed
      split at h
      · cases h
        exact .taken hnamed (by simpa using ‹x.earlier.contains x.field.name = true›)
      · rename_i hnew
        replace hnew : x.field.name ∉ x.earlier := by simpa using hnew
        rw [Declaration.fault?] at h
        split at h
        · rename_i c hc
          obtain ⟨before, after, happend, hbefore, hdeep⟩ :=
            Declaration.find?_deep_eq_some_iff.1 hc
          cases h
          exact .deep hnamed hnew happend hbefore hdeep
        · rename_i hshallow
          obtain ⟨source, hsource, rfl⟩ := Option.map_eq_some_iff.1 h
          obtain ⟨before, after, happend, hbefore, hrefused⟩ :=
            Declaration.find?_refused_eq_some_iff.1 hsource
          exact .pattern hnamed hnew (by simpa using hshallow) happend hbefore hrefused
  · intro h
    cases h with
    | blank hblank => rw [if_pos hblank]
    | taken hnamed htaken =>
      rw [hnamed, if_neg Bool.false_ne_true, if_pos (by simpa using htaken)]
    | deep hnamed hnew hc hbefore hdeep =>
      rw [hnamed, if_neg Bool.false_ne_true, if_neg (by simpa using hnew), Declaration.fault?,
        Declaration.find?_deep_eq_some_iff.2 ⟨_, _, hc, hbefore, hdeep⟩]
    | pattern hnamed hnew hshallow hsource hbefore hrefused =>
      have hnone : (x.field.conditions.find? fun c ↦ limit < c.depth) = none := by
        simpa using hshallow
      rw [hnamed, if_neg Bool.false_ne_true, if_neg (by simpa using hnew), Declaration.fault?,
        hnone]
      exact congrArg (Option.map (SchemaError.invalidPattern x.field.name))
        (Declaration.find?_refused_eq_some_iff.2 ⟨_, _, hsource, hbefore, hrefused⟩)

theorem Standing.fault?_eq_none_iff :
    x.fault? compiles limit = none ↔ ∀ e, ¬x.Fault compiles limit e := by
  simp only [← fault?_eq_some_iff, Option.eq_none_iff_forall_ne_some, ne_eq]

/-! ## Trees of fields -/

/-- **Siblings never share a name**, at any level of some trees. -/
def DistinctSiblings (fs : List Field) : Prop :=
  (fs.map (·.name)).Nodup ∧ ∀ f ∈ preorder fs, (f.columns.map (·.name)).Nodup

theorem distinctSiblings_cons_iff : DistinctSiblings (f :: fs) ↔
    f.name ∉ fs.map (·.name) ∧ DistinctSiblings f.columns ∧ DistinctSiblings fs := by
  obtain ⟨d, columns⟩ := f
  simp only [DistinctSiblings, List.map_cons, List.nodup_cons, preorder, Field.subtree,
    List.cons_append, List.forall_mem_cons, List.forall_mem_append]
  tauto

/-- If all names differ, those of siblings do. -/
theorem DistinctSiblings.of_nodup (h : ((preorder fs).map (·.name)).Nodup) :
    DistinctSiblings fs := by
  refine ⟨h.sublist ((sublist_preorder fs).map _), fun f hf ↦ h.sublist (List.Sublist.map _ ?_)⟩
  exact (sublist_preorder f.columns).trans
    ((preorder_columns_sublist f).trans (subtree_sublist_preorder fs hf))

mutual

theorem Field.faultless_iff : ∀ (f : Field) {parent : String} {taken : List String},
    f.treeFault? limit parent taken compiles = none ↔
      f.name ∉ taken ∧ DistinctSiblings f.columns ∧ ∀ g ∈ f.subtree, g.IsSound limit compiles
  | ⟨d, columns⟩, parent, taken => by
    have hself : d.faultAmong? limit parent taken compiles = none ↔
        d.name ∉ taken ∧ d.IsSound limit compiles := by
      rw [Declaration.faultAmong?, Declaration.IsSound]
      by_cases hblank : isBlankText d.name <;> by_cases htaken : d.name ∈ taken <;>
        simp [hblank, htaken]
    rw [Field.treeFault?, Option.or_eq_none_iff, hself, faultless_iff columns, Field.subtree,
      List.forall_mem_cons]
    simp only [List.not_mem_nil, not_false_eq_true, implies_true, true_and]
    tauto

/-- **Some trees are without a fault** exactly if every declaration is sound and siblings never
share a name. -/
theorem faultless_iff : ∀ (fs : List Field) {parent : String} {taken : List String},
    treeFaultOf? limit parent taken fs compiles = none ↔ (∀ f ∈ fs, f.name ∉ taken) ∧
      DistinctSiblings fs ∧ ∀ g ∈ preorder fs, g.IsSound limit compiles
  | [], _, _ => by simp [treeFaultOf?, DistinctSiblings, preorder]
  | f :: fs, parent, taken => by
    rw [treeFaultOf?, Option.or_eq_none_iff, f.faultless_iff, faultless_iff fs,
      distinctSiblings_cons_iff, preorder, List.forall_mem_append, List.forall_mem_cons]
    have hnames : (∀ g ∈ fs, g.name ∉ f.name :: taken) ↔
        f.name ∉ fs.map (·.name) ∧ ∀ g ∈ fs, g.name ∉ taken := by
      simp only [List.mem_cons, not_or, List.mem_map, not_exists, not_and, ← forall_and]
    tauto

end

mutual

theorem Field.treeFault?_eq_findSome? : ∀ (f : Field) (parent : String) (taken : List String)
    (i : Nat), f.treeFault? limit parent taken compiles =
      (f.visits parent taken i).findSome? fun v ↦ v.2.fault? compiles limit
  | ⟨d, columns⟩, parent, taken, i => by
    rw [Field.treeFault?, Field.visits, List.findSome?_cons, List.findSome?_map,
      treeFaultOf?_eq_findSome? columns d.name [] 0, Standing.fault?]
    cases d.faultAmong? limit parent taken compiles <;> rfl

/-- **The walk meets the faults in the order of their places.** -/
theorem treeFaultOf?_eq_findSome? : ∀ (fs : List Field) (parent : String) (taken : List String)
    (i : Nat), treeFaultOf? limit parent taken fs compiles =
      (visitsOf parent taken i fs).findSome? fun v ↦ v.2.fault? compiles limit
  | [], _, _, _ => rfl
  | f :: fs, parent, taken, i => by
    rw [treeFaultOf?, visitsOf, List.findSome?_append, f.treeFault?_eq_findSome? parent taken i,
      treeFaultOf?_eq_findSome? fs parent (f.name :: taken) (i + 1)]

end

/-- **The fault at the first place of some trees that has one.** -/
def FirstFault (compiles : String → Bool) (limit : Nat) (fs : List Field) (e : SchemaError) :
    Prop :=
  ∃ place x, Stands fs rootName place x ∧ x.Fault compiles limit e ∧
    ∀ other y, Stands fs rootName other y → other.Before place →
      ∀ e', ¬y.Fault compiles limit e'

theorem treeFaultOf?_eq_some_iff :
    treeFaultOf? limit rootName [] fs compiles = some e ↔ FirstFault compiles limit fs e := by
  rw [treeFaultOf?_eq_findSome? fs rootName [] 0, findSome?_visitsOf_eq_some_iff]
  simp only [Standing.fault?_eq_some_iff, Standing.fault?_eq_none_iff, FirstFault]

/-- **Fields of which a schema can be made**, if they are not computed from each other in a
circle. -/
structure Acceptable (compiles : String → Bool) (limit : Nat) (fs : List Field) : Prop where
  named : ∀ f ∈ preorder fs, isBlankText f.name = false
  siblings : DistinctSiblings fs
  shallow : ∀ f ∈ preorder fs, ∀ c ∈ f.conditions, c.depth ≤ limit
  compiling : ∀ f ∈ preorder fs, ∀ r ∈ f.rules, ∀ source, r.kind = .pattern →
    r.argument = some (.text source) → compiles (Pattern.ofLiteral source) = true

theorem acceptable_iff :
    Acceptable compiles limit fs ↔ treeFaultOf? limit rootName [] fs compiles = none := by
  simp only [faultless_iff, Declaration.IsSound, Declaration.fault?_eq_none_iff,
    Declaration.mem_patternSources_iff, List.not_mem_nil, not_false_eq_true, implies_true,
    true_and]
  constructor
  · intro h
    refine ⟨h.siblings, fun f hf ↦ ⟨h.named f hf, h.shallow f hf, ?_⟩⟩
    rintro source ⟨r, hr, hkind, hargument⟩
    exact h.compiling f hf r hr source hkind hargument
  · rintro ⟨hsiblings, hsound⟩
    refine ⟨fun f hf ↦ (hsound f hf).1, hsiblings, fun f hf ↦ (hsound f hf).2.1, ?_⟩
    exact fun f hf r hr source hkind hargument ↦
      (hsound f hf).2.2 source ⟨r, hr, hkind, hargument⟩

/-! ## What is computed from what -/

/-- **A computed name reads another one**, by its last computation. -/
def Draws (fs : List Field) (name input : String) : Prop :=
  ∃ c, LastSays fs name (·.computation) c ∧ input ∈ c.inputs ∧
    ∃ f ∈ preorder fs, f.name = input ∧ f.computation.isSome

theorem reads_computeGraph (fs : List Field) : (computeGraph fs).Reads = Draws fs := by
  funext name input
  refine propext ?_
  simp only [Graph.Reads, Draws, Graph.next, find?_computeGraph_eq, ← lastSaid?_eq_some_iff]
  cases hsaid : lastSaid? (preorder fs) name (·.computation) with
  | none => simp
  | some c =>
    have hname : name ∈ (computeGraph fs).names := by
      rw [← Table.has_iff_mem_names, Table.has, find?_computeGraph_eq, hsaid]
      rfl
    simp [hname, Names.mem_ofList, mem_names_computeGraph]

namespace Schema

variable {s : Schema}

/-- **A schema that is known by the places of its fields.** -/
structure Indexes (s : Schema) (fs : List Field) : Prop where
  fields_eq : s.fields = fs
  /-- All fields are listed in the order of their places. -/
  allFields_eq : ∃ visits : List (Place × Standing),
    visits.Pairwise (fun v w ↦ v.1.Before w.1) ∧
    (∀ place x, (place, x) ∈ visits ↔ Stands fs rootName place x) ∧
    s.allFields = visits.map (·.2.field)
  field?_eq_some_iff : ∀ name f, s.field? name = some f ↔ LastSays fs name some f
  find?_defaults_eq_some_iff : ∀ name v, s.defaults.find? name = some v ↔
    LastSays fs name (·.defaultValue) v

theorem indexes (s : Schema) : s.Indexes s.fields where
  fields_eq := rfl
  allFields_eq := by
    refine ⟨visitsOf rootName [] 0 s.fields, pairwise_before_visitsOf .., fun place x ↦ ?_, ?_⟩
    · exact mem_visitsOf_iff_stands
    · exact (map_field_visitsOf s.fields rootName [] 0).symm
  field?_eq_some_iff name f := by
    rw [field?_eq_lastSaid?]
    exact lastSaid?_eq_some_iff
  find?_defaults_eq_some_iff name v := by
    rw [defaults, find?_ofList_filterMap s.allFields (·.defaultValue)]
    exact lastSaid?_eq_some_iff

/-- **What is accepted, and why the rest is refused.**  Fields make a schema exactly if they are
acceptable and no computed name reads itself, directly or over others.  The schema then knows them
by their places; and a refusal gives the first fault, or where there is none a cycle. -/
theorem ofFieldsBy_decides (compiles : String → Bool) (limit : Nat) (fs : List Field) :
    ((∃ s, ofFieldsBy compiles limit fs = .ok s) ↔
      Acceptable compiles limit fs ∧ ∀ name, ¬Relation.TransGen (Draws fs) name name) ∧
    (∀ s, ofFieldsBy compiles limit fs = .ok s → s.Indexes fs) ∧
    ∀ e, ofFieldsBy compiles limit fs = .error e →
      FirstFault compiles limit fs e ∨
      Acceptable compiles limit fs ∧ ∃ cycle, e = .computeCycle cycle ∧
        cycle.head? = cycle.getLast? ∧ 2 ≤ cycle.length ∧ cycle.IsChain (Draws fs) := by
  have hacyclic : (computeGraph fs).Acyclic ↔
      ∀ name, ¬Relation.TransGen (Draws fs) name name := by
    rw [Graph.Acyclic, reads_computeGraph]
  refine ⟨⟨?_, ?_⟩, ?_, ?_⟩
  · rintro ⟨s, hs⟩
    obtain ⟨hsound, -, horder⟩ := ofFieldsBy_eq_ok_iff.1 hs
    exact ⟨acceptable_iff.2 hsound, hacyclic.1 (Graph.sorts_of_order_eq_ok horder).acyclic⟩
  · rintro ⟨hacceptable, hnone⟩
    cases horder : (computeGraph fs).order with
    | ok order =>
      exact ⟨⟨fs, order⟩, ofFieldsBy_eq_ok_iff.2 ⟨acceptable_iff.1 hacceptable, rfl, horder⟩⟩
    | error cycle =>
      exact absurd (hacyclic.2 hnone) (Graph.isCycle_of_order_eq_error horder).not_acyclic
  · intro s hs
    obtain ⟨-, rfl, -⟩ := ofFieldsBy_eq_ok_iff.1 hs
    exact s.indexes
  · intro e he
    rcases ofFieldsBy_eq_error_iff.1 he with hfault | ⟨hnone, cycle, horder, rfl⟩
    · exact .inl (treeFaultOf?_eq_some_iff.1 hfault)
    · have hcycle := Graph.isCycle_of_order_eq_error horder
      exact .inr ⟨acceptable_iff.2 hnone, cycle, rfl, hcycle.closed, hcycle.two_le_length,
        reads_computeGraph fs ▸ hcycle.reads⟩

/-- An address with a nameless field inside, and a second address beside it. -/
def twoAddresses : List Field :=
  [{ name := "address", component := "group", columns := [{ name := " " }] },
    { name := "address", component := "input" }]

/-- What is refused is the nameless field: what is inside of the first address comes before the
second one. -/
theorem twoAddresses_refused :
    FirstFault (fun _ ↦ false) defaultDepthLimit twoAddresses (.emptyName "address") := by
  have hrefused : ofFieldsBy (fun _ ↦ false) defaultDepthLimit twoAddresses =
      .error (.emptyName "address") := rfl
  rcases (ofFieldsBy_decides (fun _ ↦ false) defaultDepthLimit twoAddresses).2.2 _ hrefused with
    hfirst | ⟨-, cycle, heq, -⟩
  · exact hfirst
  · cases heq

end Schema

end ReactiveForm
