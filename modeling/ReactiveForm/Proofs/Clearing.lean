import Mathlib
import ReactiveForm.Proofs.Downstream
import ReactiveForm.Proofs.Steps

/-!
# What is cleared

Clearing goes in rounds.  A round starts from the fields that have just changed, been computed or
been cleared, and clears what is downstream of them; its sources replace those of the round before,
and what has been cleared once is kept from then on.

In the end this comes to one statement (`Schema.Stale`): a field is cleared exactly if it wants to
be, has not been changed itself, is not empty, and is downstream of a changed path or of a computed
one.  Later rounds add no reasons, since what a cleared field leads to is led to by whatever it was
cleared for.  And none is missed although the sources are replaced, since everything that is ever
computed is a source in the round that follows.  `Schema.Stage` is the invariant that says so.  For
this the names of the fields must be plain and computed fields must not want to be cleared; else a
computation can fill or empty a field between two rounds.

What a recomputation counts as changed is not quite what has another value than before.  A path with
points is only looked at if something depends on it, or if one of the records holds it flat.
`Schema.Overlooks` says what slips through, and `Schema.Altered.mem_changed` that nothing else
does.
-/

set_option autoImplicit false
namespace ReactiveForm
namespace Schema

variable {s : Schema} {epsilon : Binary64} {flags : FormFlags} {previous : Option Record}
  {next values : Record} {name path : String} {names sources kept : List String} {w : Write}

/-! ## What reacts to what -/

/-- A field reacts to the paths that lead to it. -/
theorem mem_next_dependents : name ∈ s.dependents.next path ↔
    ∃ f ∈ s.allFields, f.name = name ∧ path ∈ f.reactsTo := by
  have hall : ∀ (fs : List Field) (g : Graph),
      name ∈ (fs.foldl (fun g f ↦ f.reactsTo.foldl (fun g path ↦ g.connect path f.name) g) g).next
        path ↔ (∃ f ∈ fs, f.name = name ∧ path ∈ f.reactsTo) ∨ name ∈ g.next path := by
    intro fs
    induction fs with
    | nil => simp
    | cons f fs ih =>
      intro g
      rw [List.foldl_cons, ih, Graph.mem_next_connectAll, List.exists_mem_cons_iff, or_left_comm,
        or_assoc, and_comm, eq_comm]
  simpa [dependents, Graph.next, Table.find?] using hall s.allFields []

/-- The paths that lead anywhere are those on which something depends. -/
theorem mem_names_dependents : path ∈ Table.names s.dependents ↔ path ∈ s.watched := by
  have hall : ∀ (fs : List Field) (g : Graph), path ∈ Table.names
      (fs.foldl (fun g f ↦ f.reactsTo.foldl (fun (g : Graph) path ↦ g.connect path f.name) g) g) ↔
        (∃ f ∈ fs, path ∈ f.reactsTo) ∨ path ∈ Table.names g := by
    intro fs
    induction fs with
    | nil => simp
    | cons f fs ih =>
      intro g
      rw [List.foldl_cons, ih, Graph.mem_names_connectAll, List.exists_mem_cons_iff, or_left_comm,
        or_assoc]
  rw [watched, Names.mem_ofList, List.mem_flatMap]
  simpa [dependents, Table.names] using hall s.allFields []

/-- The graph is made edge by edge, so it is in order. -/
theorem dependents_sorted (s : Schema) : s.dependents.Sorted := by
  refine List.foldlRecOn s.allFields _ Graph.Sorted.nil fun g hg f _ ↦ ?_
  exact List.foldlRecOn f.reactsTo _ hg fun g hg path _ ↦ hg.connect path f.name

/-- What leads anywhere is watched. -/
theorem mem_watched_of_mem_downstream (h : name ∈ s.dependents.downstream path) :
    path ∈ s.watched := by
  obtain ⟨other, hedge, -⟩ := Relation.TransGen.head'_iff.1 (Graph.mem_downstream_iff.1 h).2
  obtain ⟨f, hf, -, hreacts⟩ := mem_next_dependents.1 hedge
  exact Names.mem_ofList.2 (List.mem_flatMap.2 ⟨f, hf, hreacts⟩)

/-! ## The names that can be cleared -/

theorem mem_clearable_iff :
    name ∈ s.clearable ↔ ∃ f, s.field? name = some f ∧ f.clearOnChange = true := by
  rw [clearable, List.mem_filter, Option.any_eq_true]
  refine ⟨And.right, fun h ↦ ⟨?_, h⟩⟩
  obtain ⟨f, hf, -⟩ := h
  obtain ⟨hmem, rfl⟩ := mem_of_field? hf
  exact List.mem_map_of_mem hmem

theorem mem_clearTargets_iff : name ∈ s.clearTargets sources kept ↔
    name ∈ s.clearable ∧ name ∉ kept ∧
      ∃ source ∈ sources, name ∈ s.dependents.downstream source := by
  simp only [clearTargets, List.mem_filter, Names.mem_ofList, List.mem_flatMap,
    Bool.and_eq_true, Bool.not_eq_true', List.contains_eq_mem, decide_eq_true_eq,
    decide_eq_false_iff_not]
  exact ⟨fun ⟨hsource, hclear, hkept⟩ ↦ ⟨hclear, hkept, hsource⟩,
    fun ⟨hclear, hkept, hsource⟩ ↦ ⟨hsource, hclear, hkept⟩⟩

theorem pairwise_clearTargets (s : Schema) (sources kept : List String) :
    (s.clearTargets sources kept).Pairwise (· < ·) := (Names.pairwise_ofList _).filter _

theorem nodup_clearTargets (s : Schema) (sources kept : List String) :
    (s.clearTargets sources kept).Nodup := (Names.nodup_ofList _).filter _

/-! ## Changes that are overlooked -/

/-- Whether the value at a path is another one than before.  Without values from before it is. -/
def Altered (previous : Option Record) (next : Record) (path : String) : Prop :=
  match previous with
  | none => True
  | some previous => sameValue (previous.at? path) (next.at? path) = false

/-- **A change that is overlooked**: one at a path with points that no record holds flat and on
which nothing depends, and before the first values any path that they do not hold flat. -/
def Overlooks (s : Schema) (previous : Option Record) (next : Record) (path : String) : Prop :=
  match previous with
  | none => Table.has next path = false
  | some previous => isDotted path = true ∧ path ∉ Table.names s.dependents ∧
    Table.has previous path = false ∧ Table.has next path = false ∧
    sameValue (previous.at? path) (next.at? path) = false

theorem Overlooks.altered (h : s.Overlooks previous next path) : Altered previous next path := by
  cases previous with
  | none => trivial
  | some previous => exact h.2.2.2.2

theorem mem_changed_none : path ∈ s.changed none next ↔ Table.has next path = true := by
  rw [changed, Names.mem_ofList, Table.has_iff_mem_names]

theorem mem_changed_some {previous : Record} : path ∈ s.changed (some previous) next ↔
    ((path ∈ Table.names previous ∨ path ∈ Table.names next) ∧
        sameValue (Table.find? previous path) (Table.find? next path) = false) ∨
      (path ∈ Table.names s.dependents ∧
        sameValue (previous.at? path) (next.at? path) = false) := by
  simp only [changed, Names.mem_ofList, List.mem_append, List.mem_filter, Bool.not_eq_true']

/-- **A change is seen unless it is overlooked.** -/
theorem Altered.mem_changed (h : Altered previous next path)
    (hseen : ¬s.Overlooks previous next path) : path ∈ s.changed previous next := by
  cases previous with
  | none => exact mem_changed_none.2 (by simpa [Overlooks] using hseen)
  | some previous =>
    refine mem_changed_some.2 ?_
    have hdiffer : sameValue (previous.at? path) (next.at? path) = false := h
    by_cases hwatched : path ∈ Table.names s.dependents
    · exact .inr ⟨hwatched, hdiffer⟩
    refine .inl ?_
    cases hp : Table.find? previous path with
    | some v =>
      refine ⟨.inl (Table.has_iff_mem_names.1 (by rw [Table.has, hp]; rfl)), ?_⟩
      cases hn : Table.find? next path with
      | some v' => simpa only [Record.at?, hp, hn] using hdiffer
      | none => rfl
    | none =>
      cases hn : Table.find? next path with
      | some v' =>
        exact ⟨.inr (Table.has_iff_mem_names.1 (by rw [Table.has, hn]; rfl)), rfl⟩
      | none =>
        -- held flat by neither, so the path has points
        exfalso
        refine hseen ⟨?_, hwatched, by rw [Table.has, hp]; rfl, by rw [Table.has, hn]; rfl, hdiffer⟩
        by_contra hdot
        rw [Bool.not_eq_true] at hdot
        simp [Record.at?_of_not_isDotted hdot, hp, hn] at hdiffer

/-- What is cleared wants to be, and does not count as changed. -/
theorem path_of_mem_cleared (h : w ∈ (s.recompute flags epsilon previous next).cleared) :
    w.path ∈ s.clearable ∧ w.path ∉ s.changed previous next := by
  obtain ⟨_, _, ⟨-, hcleared⟩, -⟩ := settling_induction s epsilon previous next
    (Q := fun _ kept st ↦ s.changed previous next ⊆ kept ∧
      ∀ w ∈ st.cleared, w.path ∈ s.clearable ∧ w.path ∉ s.changed previous next)
    ⟨List.Subset.refl _, by simp⟩ fun sources kept st ⟨hkept, hcleared⟩ ↦ by
      refine ⟨List.subset_append_of_subset_left _ hkept, fun w hw ↦ ?_⟩
      rcases List.mem_append.1 hw with hw | hw
      · exact hcleared w hw
      · obtain ⟨hclear, hnew⟩ := path_mem_of_mem_clearRound hw
        exact ⟨hclear, fun h ↦ hnew (hkept h)⟩
  exact hcleared w h

/-- **Clearing takes back no change of the host**, exactly if it clears nothing that is
overlooked. -/
theorem keeps_altered_iff (s : Schema) (flags : FormFlags) (epsilon : Binary64)
    (previous : Option Record) (next : Record) :
    (∀ w ∈ (s.recompute flags epsilon previous next).cleared, ¬Altered previous next w.path) ↔
      ∀ w ∈ (s.recompute flags epsilon previous next).cleared,
        ¬s.Overlooks previous next w.path := by
  constructor
  · exact fun h w hw hover ↦ h w hw hover.altered
  · intro h w hw haltered
    exact (path_of_mem_cleared hw).2 (haltered.mem_changed (h w hw))

/-- A country, and under some name a region that is cleared with it. -/
def regionSchema (region : String) : Schema where
  fields := [{ name := "country", component := "select" },
    { name := region, component := "select", dependencies := ["country"], clearOnChange := true }]
  computeOrder := []

/-- **A region inside an address is cleared although it has just been entered**: nothing depends on
it, so that it is not seen to have changed. -/
theorem clears_overlooked_change :
    ofFields defaultDepthLimit (regionSchema "address.region").fields =
        .ok (regionSchema "address.region") ∧
      ¬∀ w ∈ ((regionSchema "address.region").recompute ⟨false, false⟩ defaultEpsilon
          (some [("country", .text "NO")])
          [("address", .record [("region", .text "Skåne")]), ("country", .text "SE")]).cleared,
        ¬Altered (some [("country", .text "NO")])
          [("address", .record [("region", .text "Skåne")]), ("country", .text "SE")] w.path := by
  let s := regionSchema "address.region"
  let before : Record := [("country", .text "NO")]
  let after : Record := [("address", .record [("region", .text "Skåne")]), ("country", .text "SE")]
  have hchanged : s.changed (some before) after = ["address", "country"] := rfl
  have htargets : s.clearTargets ["address", "country"] ["address", "country"] =
      ["address.region"] := by cbv
  have hpath : "address.region" ∈
      (s.settling defaultEpsilon (some before) after).cleared.map (·.path) :=
    mem_cleared_of_first_round hchanged rfl htargets (by decide)
  refine ⟨ofFields_of_order rfl (by cbv), fun hkept ↦ ?_⟩
  obtain ⟨w, hw, hwpath⟩ := List.mem_map.1 hpath
  refine hkept w hw ?_
  rw [hwpath]
  rfl

/-! ## What is computed and what is cleared -/

theorem PlainNames.of_mem_clearable (h : s.PlainNames) (hname : name ∈ s.clearable) :
    isDotted name = false := by
  obtain ⟨f, hf, -⟩ := mem_clearable_iff.1 hname
  exact h.of_field? hf

/-- A computed write goes to a name of the order or to a cell. -/
theorem Computes.path_mem (h : s.Computes epsilon values w) :
    w.path ∈ s.computeOrder ∨ isDotted w.path = true := by
  cases h with
  | field hname hform hfield hw =>
    rw [Declaration.computedWrite?_eq_some hw]
    exact .inl hname
  | cell hlist hcolumn hrow hw =>
    rw [Declaration.computedWrite?_eq_some hw]
    exact .inr (isDotted_cellPath _ _ _)

theorem path_of_mem_computePass (h : w ∈ (s.computePass epsilon values).writes) :
    w.path ∈ s.computeOrder ∨ isDotted w.path = true :=
  (computePass_forall (I := fun _ ↦ True) trivial fun _ _ _ hw ↦ ⟨trivial, hw.path_mem⟩).2 w h

/-! ## Emptiness of what is not written -/

/-- A computed write empties and fills no name but its own: writing cells of a list, it keeps the
rows. -/
theorem Computes.isEmpty_find? (h : s.Computes epsilon values w) (hnames : s.PlainNames)
    (hplain : values.Plain) (hname : name ∉ s.computeOrder) :
    Value.isEmpty (Table.find? (values.apply w) name) =
      Value.isEmpty (Table.find? values name) := by
  cases h with
  | @field other f w hother hform hfield hw =>
    have hne : name ≠ other := fun h ↦ hname (h ▸ hother)
    rw [Declaration.computedWrite?_eq_some hw, Record.apply,
      Record.write_of_not_isDotted (hnames.of_field? hfield), Record.find?_put_of_ne hne]
  | @cell list column index row w hlist hcolumn hrow hw =>
    have hdot := hnames.of_mem_lists hlist
    rw [Declaration.computedWrite?_eq_some hw, Record.apply]
    by_cases hne : name = list.name
    · subst hne
      obtain ⟨rows, hrows, hindex⟩ := (Record.rowAt?_eq_some_iff hdot).1 hrow
      obtain ⟨rows', hrows', hlength⟩ := hplain.find?_write_cellPath_self hdot hrows index
        column.name (column.computation.bind (·.evaluate (Table.overlay values row)))
      rw [hrows', hrows, Value.isEmpty, Value.isEmpty, Bool.eq_iff_iff, List.isEmpty_iff,
        List.isEmpty_iff, ← List.length_eq_zero_iff, hlength, List.length_eq_zero_iff]
    · rw [hplain.find?_write_cellPath hdot hne]

theorem isEmpty_find?_computePass (hnames : s.PlainNames) (hplain : values.Plain)
    (hname : name ∉ s.computeOrder) :
    Value.isEmpty (Table.find? (s.computePass epsilon values).values name) =
      Value.isEmpty (Table.find? values name) :=
  (computePass_induction (P := fun p ↦ p.values.Plain ∧
      Value.isEmpty (Table.find? p.values name) = Value.isEmpty (Table.find? values name))
    ⟨hplain, rfl⟩ fun _ w hp hw ↦
      ⟨hp.1.apply w, (hw.isEmpty_find? hnames hp.1 hname).trans hp.2⟩).2

/-! ## A round of clearing -/

/-- A write of a round is the one that clears its path. -/
theorem eq_clearing_of_mem_clearRound (h : w ∈ (s.clearRound sources kept values).writes) :
    w = s.clearing w.path := by
  refine clearRound_forall (Q := fun w ↦ w = s.clearing w.path) (fun V v hv ↦ ?_) w h
  obtain ⟨name, -, -, rfl⟩ := hv
  rfl

theorem find?_extend_clearing (hdot : isDotted name = false) {other : String}
    (hne : other ≠ name) (p : Progress) :
    Table.find? (p.extend (s.clearingWrite? p.values name)).values other =
      Table.find? p.values other := by
  rw [clearingWrite?]
  split
  · rfl
  · rw [Progress.extend, Record.apply, Record.write_of_not_isDotted hdot,
      Record.find?_put_of_ne hne]

/-- Clearing plain names one after the other clears those that are not empty at the start. -/
theorem writes_clearEach (hnodup : names.Nodup) (hdot : ∀ n ∈ names, isDotted n = false)
    (p : Progress) : (s.clearEach names p).writes = p.writes ++
      (names.filter fun n ↦ !Value.isEmpty (Table.find? p.values n)).map s.clearing := by
  induction names generalizing p with
  | nil => simp [clearEach]
  | cons name names ih =>
    obtain ⟨hnew, hnodup⟩ := List.nodup_cons.1 hnodup
    have hname := hdot name List.mem_cons_self
    have hrest : (names.filter fun n ↦ !Value.isEmpty
          (Table.find? (p.extend (s.clearingWrite? p.values name)).values n)) =
        names.filter fun n ↦ !Value.isEmpty (Table.find? p.values n) :=
      List.filter_congr fun n hn ↦ by
        rw [find?_extend_clearing hname (fun h ↦ hnew (h ▸ hn))]
    rw [clearEach, ih hnodup (fun n hn ↦ hdot n (List.mem_cons_of_mem _ hn)), hrest,
      List.filter_cons, clearingWrite?, Record.at?_of_not_isDotted hname]
    cases hempty : Value.isEmpty (Table.find? p.values name) with
    | true => rfl
    | false => simp [Progress.extend, clearing]

/-- **The writes of a round of clearing** among plain names. -/
theorem writes_clearRound (hnames : s.PlainNames) :
    (s.clearRound sources kept values).writes =
      ((s.clearTargets sources kept).filter fun n ↦
        !Value.isEmpty (Table.find? values n)).map s.clearing := by
  rw [clearRound, writes_clearEach (nodup_clearTargets ..) fun n hn ↦
    hnames.of_mem_clearable (mem_clearTargets_iff.1 hn).1]
  rfl

theorem paths_clearRound (hnames : s.PlainNames) :
    (s.clearRound sources kept values).writes.map (·.path) =
      (s.clearTargets sources kept).filter fun n ↦ !Value.isEmpty (Table.find? values n) := by
  rw [writes_clearRound hnames, List.map_map]
  exact List.map_id' _

/-- A name that a round does not write to keeps its value. -/
theorem find?_clearRound (hnames : s.PlainNames)
    (hname : name ∉ (s.clearRound sources kept values).writes.map (·.path)) :
    Table.find? (s.clearRound sources kept values).values name = Table.find? values name := by
  rw [clearRound_values]
  refine Record.find?_applyAll_of_notMem (fun w hw ↦ ?_) hname
  exact hnames.of_mem_clearable (path_mem_of_mem_clearRound hw).1

/-! ## All rounds -/

/-- **A stale field**: one that wants to be cleared, has not been changed itself, is not empty, and
is downstream of something that was changed or computed. -/
def Stale (s : Schema) (next : Record) (changed computed : List String) (name : String) : Prop :=
  (∃ f, s.field? name = some f ∧ f.clearOnChange = true) ∧ name ∉ changed ∧
    Value.isEmpty (next.at? name) = false ∧
    ∃ source, (source ∈ changed ∨ source ∈ computed) ∧ name ∈ s.dependents.downstream source

theorem Stale.mono {changed computed more : List String}
    (h : s.Stale next changed computed name) (hmore : computed ⊆ more) :
    s.Stale next changed more name := by
  obtain ⟨hclear, hchanged, hempty, source, hsource, hdown⟩ := h
  exact ⟨hclear, hchanged, hempty, source, hsource.imp_right (hmore ·), hdown⟩

/-- What the rounds keep true of the sources, the kept names and the settling values. -/
structure Stage (s : Schema) (next : Record) (changed sources kept : List String)
    (st : Settling) : Prop where
  plain : st.values.Plain
  kept_eq : kept = changed ++ st.cleared.map (·.path)
  /-- A field that can still be cleared is as empty as it was at first. -/
  untouched : ∀ n ∈ s.clearable, n ∉ kept →
    Value.isEmpty (Table.find? st.values n) = Value.isEmpty (Table.find? next n)
  computed : ∀ n ∈ st.computed.map (·.path), n ∈ s.computeOrder ∨ isDotted n = true
  stale : ∀ n ∈ st.cleared.map (·.path), s.Stale next changed (st.computed.map (·.path)) n
  clearing : ∀ w ∈ st.cleared, w = s.clearing w.path
  nodup : (st.cleared.map (·.path)).Nodup
  /-- A source has been changed, computed or cleared. -/
  justified : ∀ n ∈ sources, n ∈ changed ∨ n ∈ st.computed.map (·.path) ∨
    n ∈ st.cleared.map (·.path)
  /-- What is no source any more has had its effect. -/
  spent : ∀ source, source ∈ changed ∨ source ∈ st.computed.map (·.path) → source ∉ sources →
    ∀ n ∈ s.dependents.downstream source, n ∈ s.clearable →
      Value.isEmpty (Table.find? next n) = false → n ∈ kept

section

variable {changed : List String} {st : Settling}

/-- Before the first round. -/
theorem Stage.start (hnames : s.PlainNames)
    (hcompute : ∀ n ∈ s.computeOrder, n ∉ s.clearable) (hnext : next.Plain) :
    s.Stage next changed (changed ++ (s.computePass epsilon next).writes.map (·.path)) changed
      ⟨(s.computePass epsilon next).values, mergeWrites [] (s.computePass epsilon next).writes,
        []⟩ where
  plain := hnext.computePass
  kept_eq := by simp
  untouched n hn _ := isEmpty_find?_computePass hnames hnext fun h ↦ hcompute n h hn
  computed n hn := by
    obtain ⟨w, hw, rfl⟩ := List.mem_map.1 hn
    exact path_of_mem_computePass ((mem_mergeWrites hw).resolve_left List.not_mem_nil)
  stale := by simp
  clearing := by simp
  nodup := List.nodup_nil
  justified n hn := (List.mem_append.1 hn).imp_right fun h ↦ .inl (mem_paths_mergeWrites.2 (.inr h))
  spent source hsource hnew := by
    rw [List.mem_append, not_or] at hnew
    rcases hsource with h | h
    · exact absurd h hnew.1
    · exact absurd ((mem_paths_mergeWrites.1 h).resolve_left (by simp)) hnew.2

/-- A field that a round clears is stale: if its source was cleared itself, then by what that one
was cleared for. -/
theorem Stage.stale_of_mem_clearRound (h : s.Stage next changed sources kept st)
    (hnames : s.PlainNames) (hcompute : ∀ n ∈ s.computeOrder, n ∉ s.clearable)
    (hname : name ∈ (s.clearRound sources kept st.values).writes.map (·.path)) :
    s.Stale next changed (st.computed.map (·.path)) name := by
  rw [paths_clearRound hnames, List.mem_filter, Bool.not_eq_true'] at hname
  obtain ⟨htarget, hfull⟩ := hname
  obtain ⟨hclear, hkept, source, hsource, hdown⟩ := mem_clearTargets_iff.1 htarget
  have hdot := hnames.of_mem_clearable hclear
  rw [h.untouched name hclear hkept, ← Record.at?_of_not_isDotted hdot] at hfull
  have hchanged : name ∉ changed := fun hc ↦ hkept (h.kept_eq ▸ List.mem_append_left _ hc)
  refine ⟨mem_clearable_iff.1 hclear, hchanged, hfull, ?_⟩
  rcases h.justified source hsource with hs | hs | hs
  · exact ⟨source, .inl hs, hdown⟩
  · exact ⟨source, .inr hs, hdown⟩
  · obtain ⟨-, -, -, first, hfirst, hfirstDown⟩ := h.stale source hs
    refine ⟨first, hfirst, Graph.downstream_trans hfirstDown hdown ?_⟩
    rintro rfl
    rcases hfirst with hf | hf
    · exact hchanged hf
    · rcases h.computed name hf with hf | hf
      · exact hcompute name hf hclear
      · rw [hdot] at hf
        cases hf

/-- A round clears what is downstream of its sources, unless it is kept or empty. -/
theorem Stage.mem_clearRound (h : s.Stage next changed sources kept st) (hnames : s.PlainNames)
    {source : String} (hsource : source ∈ sources) (hdown : name ∈ s.dependents.downstream source)
    (hclear : name ∈ s.clearable) (hfull : Value.isEmpty (Table.find? next name) = false)
    (hkept : name ∉ kept) :
    name ∈ (s.clearRound sources kept st.values).writes.map (·.path) := by
  rw [paths_clearRound hnames, List.mem_filter, Bool.not_eq_true', h.untouched name hclear hkept]
  exact ⟨mem_clearTargets_iff.2 ⟨hclear, hkept, source, hsource, hdown⟩, hfull⟩

/-- One round more. -/
theorem Stage.round (h : s.Stage next changed sources kept st) (hnames : s.PlainNames)
    (hcompute : ∀ n ∈ s.computeOrder, n ∉ s.clearable) :
    let round := s.clearRound sources kept st.values
    let pass := s.computePass epsilon round.values
    s.Stage next changed ((round.writes ++ pass.writes).map (·.path))
      (kept ++ round.writes.map (·.path))
      ⟨pass.values, mergeWrites st.computed pass.writes, st.cleared ++ round.writes⟩ := by
  intro round pass
  have hround : round.values.Plain := h.plain.clearRound
  have hmore : st.computed.map (·.path) ⊆
      (mergeWrites st.computed pass.writes).map (·.path) := fun n hn ↦
    mem_paths_mergeWrites.2 (.inl hn)
  exact {
    plain := hround.computePass
    kept_eq := by rw [h.kept_eq, List.map_append, List.append_assoc]
    untouched := fun n hn hkept ↦ by
      rw [List.mem_append, not_or] at hkept
      rw [isEmpty_find?_computePass hnames hround fun hc ↦ hcompute n hc hn,
        find?_clearRound hnames hkept.2, h.untouched n hn hkept.1]
    computed := fun n hn ↦ by
      rcases mem_paths_mergeWrites.1 hn with hn | hn
      · exact h.computed n hn
      · obtain ⟨w, hw, rfl⟩ := List.mem_map.1 hn
        exact path_of_mem_computePass hw
    stale := fun n hn ↦ by
      rw [List.map_append, List.mem_append] at hn
      refine Stale.mono ?_ hmore
      exact hn.elim (h.stale n) (h.stale_of_mem_clearRound hnames hcompute)
    clearing := fun w hw ↦ by
      rcases List.mem_append.1 hw with hw | hw
      · exact h.clearing w hw
      · exact eq_clearing_of_mem_clearRound hw
    nodup := by
      rw [List.map_append, List.nodup_append]
      refine ⟨h.nodup, ?_, fun a ha b hb hab ↦ ?_⟩
      · rw [paths_clearRound hnames]
        exact (nodup_clearTargets ..).filter _
      · obtain ⟨w, hw, rfl⟩ := List.mem_map.1 hb
        refine (path_mem_of_mem_clearRound hw).2 ?_
        rw [h.kept_eq, ← hab]
        exact List.mem_append_right _ ha
    justified := fun n hn ↦ by
      rw [List.map_append, List.mem_append] at hn
      rcases hn with hn | hn
      · exact .inr (.inr (by rw [List.map_append]; exact List.mem_append_right _ hn))
      · exact .inr (.inl (mem_paths_mergeWrites.2 (.inr hn)))
    spent := fun source hsource hnew n hdown hclear hfull ↦ by
      rw [List.map_append, List.mem_append, not_or] at hnew
      have hold : source ∈ changed ∨ source ∈ st.computed.map (·.path) :=
        hsource.imp_right fun hs ↦ (mem_paths_mergeWrites.1 hs).resolve_right hnew.2
      rw [List.mem_append]
      by_cases hs : source ∈ sources
      · exact Decidable.or_iff_not_imp_left.2 (h.mem_clearRound hnames hs hdown hclear hfull)
      · exact .inl (h.spent source hold hs n hdown hclear hfull) }

/-- When a round clears nothing, all that is stale has been cleared. -/
theorem Stage.mem_cleared (h : s.Stage next changed sources kept st) (hnames : s.PlainNames)
    (hdone : (s.clearRound sources kept st.values).writes = [])
    (hstale : s.Stale next changed (st.computed.map (·.path)) name) :
    name ∈ st.cleared.map (·.path) := by
  obtain ⟨hclear, hchanged, hfull, source, hsource, hdown⟩ := hstale
  replace hclear := mem_clearable_iff.2 hclear
  rw [Record.at?_of_not_isDotted (hnames.of_mem_clearable hclear)] at hfull
  suffices hkept : name ∈ kept by
    rw [h.kept_eq, List.mem_append] at hkept
    exact hkept.resolve_left hchanged
  by_cases hs : source ∈ sources
  · by_contra hkept
    have hround := h.mem_clearRound hnames hs hdown hclear hfull hkept
    simp [hdone] at hround
  · exact h.spent source hsource hs name hdown hclear hfull

end

/-- The rounds end at a stage where a further round clears nothing. -/
theorem settling_stage (epsilon : Binary64) (previous : Option Record) (hnames : s.PlainNames)
    (hcompute : ∀ n ∈ s.computeOrder, ∀ f, s.field? n = some f → f.clearOnChange = false)
    (hnext : next.Plain) : ∃ sources kept,
    s.Stage next (s.changed previous next) sources kept (s.settling epsilon previous next) ∧
      (s.clearRound sources kept (s.settling epsilon previous next).values).writes = [] := by
  have hcompute' : ∀ n ∈ s.computeOrder, n ∉ s.clearable := fun n hn hclear ↦ by
    obtain ⟨f, hf, hfclear⟩ := mem_clearable_iff.1 hclear
    rw [hcompute n hn f hf] at hfclear
    cases hfclear
  exact settling_induction s epsilon previous next (Q := s.Stage next (s.changed previous next))
    (Stage.start hnames hcompute' hnext) fun _ _ _ h ↦ h.round hnames hcompute'

/-- Among plain names, clearing takes back no change of the host; before the first values it clears
nothing. -/
theorem keeps_altered (hnames : s.PlainNames)
    (hcompute : ∀ n ∈ s.computeOrder, ∀ f, s.field? n = some f → f.clearOnChange = false)
    (hnext : next.Plain) (hw : w ∈ (s.recompute flags epsilon previous next).cleared) :
    ¬Altered previous next w.path := by
  obtain ⟨_, _, hstage, -⟩ := settling_stage epsilon previous hnames hcompute hnext
  obtain ⟨hclear, hchanged, hfull, -⟩ := hstage.stale _ (List.mem_map_of_mem hw)
  have hdot := hnames.of_mem_clearable (mem_clearable_iff.2 hclear)
  refine fun haltered ↦ hchanged (haltered.mem_changed ?_)
  cases previous with
  | some previous => exact fun hover ↦ absurd hover.1 (by rw [hdot]; decide)
  | none =>
    -- a name that is not held is empty
    intro hover
    rw [Overlooks, Table.has, Option.isSome_eq_false_iff, Option.isNone_iff_eq_none] at hover
    rw [Record.at?_of_not_isDotted hdot, hover] at hfull
    cases hfull

/-- **Exactly the stale fields are cleared**, each once: one of several choices to no choice, any
other one to nothing. -/
theorem cleared_iff_stale (hnames : s.PlainNames)
    (hcompute : ∀ n ∈ s.computeOrder, ∀ f, s.field? n = some f → f.clearOnChange = false)
    (hnext : next.Plain) :
    let u := s.recompute flags epsilon previous next
    (∀ name, name ∈ u.cleared.map (·.path) ↔
      s.Stale next (s.changed previous next) (u.computed.map (·.path)) name) ∧
    (u.cleared.map (·.path)).Nodup ∧
    ∀ w ∈ u.cleared, ∀ f, s.field? w.path = some f →
      w.value = if f.multiple then some (.list []) else none := by
  obtain ⟨sources, kept, hstage, hdone⟩ := settling_stage epsilon previous hnames hcompute hnext
  refine ⟨fun name ↦ ⟨hstage.stale name, hstage.mem_cleared hnames hdone⟩, hstage.nodup,
    fun w hw f hf ↦ ?_⟩
  rw [hstage.clearing w hw, clearing, hf, Option.any_some]

/-- A region is cleared when the country changes. -/
theorem region_cleared : "region" ∈ ((regionSchema "region").recompute ⟨false, false⟩ defaultEpsilon
    (some [("country", .text "NO"), ("region", .text "Viken")])
    [("country", .text "SE"), ("region", .text "Viken")]).cleared.map (·.path) :=
  ((cleared_iff_stale (by decide) (fun _ h ↦ absurd h List.not_mem_nil) (by decide)).1 "region").2
    ⟨⟨_, rfl, rfl⟩, by decide, by decide, "country", .inl (by decide),
      Graph.mem_downstream_iff.2 ⟨by decide, .single (by decide)⟩⟩

end Schema
end ReactiveForm
