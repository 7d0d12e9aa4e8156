import ReactiveForm.Proofs.Settled

/-!
# Which order of computations does not matter

The computations of a schema come in one of several orders in which none reads what comes behind it.
Where no computation reads a cell of a list or takes a member of what is computed
(`Schema.Untangled`), any such order proposes the same: the same writes that clear, in the same
order, the same computed writes in some order, and the same states (`Schema.recompute_reorder`).

Two orders of that kind differ by exchanges of computations of which neither reads the other
(`foldl_rel_of_perm`), and such computations lie apart.  Exchanging them exchanges two writes at
different paths, so all the time the values are the same, and at each path the same is written
(`Progress.Similar`).

The writes do come in another order, so nothing on the way may look at it: lists of writes are
compared path by path (`SameAtPaths`), which merging keeps, and which makes one a permutation of the
other.
-/

set_option autoImplicit false
namespace ReactiveForm

open Record Write

/-! ## Folds over a list in another order

The induction is on the first of the two lists.  Its head stands somewhere in the other one, and may
be brought to the front there: it need not come behind those before it, as the first list shows, and
they need not come behind it, as the second one does. -/

section

variable {α β : Type} {before : α → α → Prop}

/-- An entry may come first if it may be exchanged with those before it. -/
theorem foldl_rel_of_middle (rel : β → β → Prop) (step : β → α → β)
    (htrans : ∀ {a b c}, rel a b → rel b c → rel a c) {a : α}
    {first last : List α}
    (hcongr : ∀ a ∈ first ++ last, ∀ b c, rel b c → rel (step b a) (step c a))
    (hstep : ∀ b c, rel b c → rel (step b a) (step c a))
    (hcomm : ∀ x ∈ first, ∀ b, rel b b → rel (step (step b a) x) (step (step b x) a)) {b : β}
    (hb : rel b b) :
    rel ((a :: (first ++ last)).foldl step b) ((first ++ a :: last).foldl step b) := by
  induction first generalizing b with
  | nil =>
    refine List.foldl_rel hb fun x hx b c hbc ↦ ?_
    rcases List.mem_cons.1 hx with rfl | hx
    · exact hstep b c hbc
    · exact hcongr x hx b c hbc
  | cons x first ih =>
    have hexchange := hcomm x List.mem_cons_self b hb
    have hrest := List.foldl_rel hexchange fun y hy b c hbc ↦
      hcongr y (List.mem_cons_of_mem x hy) b c hbc
    refine htrans hrest (ih (fun y hy ↦ hcongr y (List.mem_cons_of_mem x hy))
      (fun y hy ↦ hcomm y (List.mem_cons_of_mem x hy)) ?_)
    exact hcongr x List.mem_cons_self b b hb

/-- **Folds over a list in two orders** are related if both orders put before what has to come
before, and entries may be exchanged of which neither has to. -/
theorem foldl_rel_of_perm (rel : β → β → Prop) (step : β → α → β)
    (hsymm : ∀ {a b}, rel a b → rel b a) (htrans : ∀ {a b c}, rel a b → rel b c → rel a c)
    {l l' : List α}
    (hcongr : ∀ a ∈ l, ∀ b c, rel b c → rel (step b a) (step c a))
    (hcomm : ∀ a ∈ l, ∀ a' ∈ l, before a a' → before a' a → ∀ b, rel b b →
      rel (step (step b a) a') (step (step b a') a))
    (hperm : l.Perm l') (hl : l.Pairwise before) (hl' : l'.Pairwise before) {b c : β}
    (h : rel b c) : rel (l.foldl step b) (l'.foldl step c) := by
  induction l generalizing l' b c with
  | nil =>
    rw [← hperm.nil_eq]
    exact h
  | cons a l ih =>
    obtain ⟨first, last, rfl⟩ := List.append_of_mem (hperm.subset List.mem_cons_self)
    have hrest : l.Perm (first ++ last) := (hperm.trans List.perm_middle).cons_inv
    have hmem : ∀ x ∈ first ++ last, x ∈ l := fun x hx ↦ hrest.symm.subset hx
    obtain ⟨hfirst, hmiddle, hacross⟩ := List.pairwise_append.1 hl'
    have hlast := (List.pairwise_cons.1 hmiddle).2
    have hother : (first ++ last).Pairwise before := List.pairwise_append.2
      ⟨hfirst, hlast, fun x hx y hy ↦ hacross x hx y (List.mem_cons_of_mem a hy)⟩
    have htail := ih (fun x hx ↦ hcongr x (List.mem_cons_of_mem a hx))
      (fun x hx y hy ↦ hcomm x (List.mem_cons_of_mem a hx) y (List.mem_cons_of_mem a hy))
      hrest (List.pairwise_cons.1 hl).2 hother (hcongr a List.mem_cons_self b c h)
    have hmove : rel ((a :: (first ++ last)).foldl step c) ((first ++ a :: last).foldl step c) := by
      refine foldl_rel_of_middle rel step htrans
        (fun x hx ↦ hcongr x (List.mem_cons_of_mem a (hmem x hx))) (hcongr a List.mem_cons_self)
        (fun x hx ↦ ?_) (htrans (hsymm h) h)
      have hxl : x ∈ l := hmem x (List.mem_append_left _ hx)
      exact hcomm a List.mem_cons_self x (List.mem_cons_of_mem a hxl)
        ((List.pairwise_cons.1 hl).1 x hxl) (hacross x hx a List.mem_cons_self)
    exact htrans htail hmove

end

/-! ## The same writes at each path -/

/-- **The same writes at each path**, in the same order there. -/
def SameAtPaths (ws vs : List Write) : Prop :=
  ∀ path, ws.filter (·.path = path) = vs.filter (·.path = path)

namespace SameAtPaths

variable {ws vs us more others : List Write} {w v : Write}

theorem refl (ws : List Write) : SameAtPaths ws ws := fun _ ↦ rfl

theorem symm (h : SameAtPaths ws vs) : SameAtPaths vs ws := fun path ↦ (h path).symm

theorem trans (h : SameAtPaths ws vs) (h' : SameAtPaths vs us) : SameAtPaths ws us :=
  fun path ↦ (h path).trans (h' path)

/-- What is the same at each path stays so when more of the same is added. -/
theorem append (h : SameAtPaths ws vs) (h' : SameAtPaths more others) :
    SameAtPaths (ws ++ more) (vs ++ others) := fun path ↦ by
  rw [List.filter_append, List.filter_append, h path, h' path]

/-- Writes at different paths may be exchanged. -/
theorem swap (h : w.path ≠ v.path) : SameAtPaths [w, v] [v, w] := fun path ↦ by
  by_cases hw : w.path = path
  · have hv : v.path ≠ path := fun hv ↦ h (hw.trans hv.symm)
    simp [hw, hv]
  · by_cases hv : v.path = path <;> simp [hw, hv]

theorem mem_iff (h : SameAtPaths ws vs) : w ∈ ws ↔ w ∈ vs := by
  have hmem : ∀ us : List Write, w ∈ us ↔ w ∈ us.filter (·.path = w.path) := by simp
  rw [hmem, h w.path, ← hmem]

theorem paths_iff (h : SameAtPaths ws vs) {path : String} :
    path ∈ ws.map (·.path) ↔ path ∈ vs.map (·.path) := by
  simp only [List.mem_map, h.mem_iff]

/-- The same writes at each path are the same writes, in some order. -/
theorem perm (h : SameAtPaths ws vs) : ws.Perm vs := by
  classical
  refine List.perm_iff_count.2 fun w ↦ ?_
  have hcount : ∀ us : List Write, us.count w = (us.filter (·.path = w.path)).count w :=
    fun us ↦ (List.count_filter (by simp)).symm
  rw [hcount, h w.path, ← hcount]

/-- What a write leaves at a path it is merged into. -/
theorem filter_mergeWrite (w : Write) (ws : List Write) (path : String) :
    (mergeWrite w ws).filter (·.path = path) =
      if w.path = path then w :: (ws.filter (·.path = path)).tail
      else ws.filter (·.path = path) := by
  induction ws with
  | nil =>
    rw [mergeWrite]
    by_cases h : w.path = path <;> simp [h]
  | cons v ws ih =>
    rw [mergeWrite]
    by_cases hv : v.path = w.path
    · rw [if_pos hv]
      by_cases h : w.path = path
      · simp [h, hv]
      · simp [h, hv]
    · rw [if_neg hv]
      by_cases h : w.path = path
      · have hvpath : v.path ≠ path := fun hvpath ↦ hv (hvpath.trans h.symm)
        simp [h, hvpath, ih]
      · by_cases hvpath : v.path = path <;> simp [h, hvpath, ih]

/-- At one path, merging only has to do with the writes there. -/
theorem filter_mergeWrites (ws more : List Write) (path : String) :
    (mergeWrites ws more).filter (·.path = path) =
      (more.filter (·.path = path)).foldl (fun us w ↦ w :: us.tail)
        (ws.filter (·.path = path)) := by
  induction more generalizing ws with
  | nil => rfl
  | cons w more ih =>
    rw [mergeWrites, List.foldl_cons, ← mergeWrites, ih, filter_mergeWrite]
    by_cases h : w.path = path <;> simp [h]

theorem mergeWrites (h : SameAtPaths ws vs) (h' : SameAtPaths more others) :
    SameAtPaths (mergeWrites ws more) (mergeWrites vs others) := fun path ↦ by
  rw [filter_mergeWrites, filter_mergeWrites, h path, h' path]

end SameAtPaths

/-! ## Progress by the same writes at each path

The relation that is kept between two passes in different orders.  It does not say that the lists of
writes are the same, but it says enough for what comes of them. -/

/-- **The same values, reached by the same writes at each path.** -/
structure Progress.Similar (p q : Progress) : Prop where
  wellFormed : p.values.WellFormed
  values : p.values = q.values
  writes : SameAtPaths p.writes q.writes

namespace Progress

variable {p q r : Progress}

theorem Similar.refl (h : p.values.WellFormed) : p.Similar p := ⟨h, rfl, .refl _⟩

theorem Similar.symm (h : p.Similar q) : q.Similar p :=
  ⟨h.values ▸ h.wellFormed, h.values.symm, h.writes.symm⟩

theorem Similar.trans (h : p.Similar q) (h' : q.Similar r) : p.Similar r :=
  ⟨h.wellFormed, h.values.trans h'.values, h.writes.trans h'.writes⟩

/-- A write that follows from the values keeps progress similar. -/
theorem Similar.extend (h : p.Similar q) {write? : Record → Option Write}
    (hwell : ∀ w, write? p.values = some w → (p.values.apply w).WellFormed) :
    (p.extend (write? p.values)).Similar (q.extend (write? q.values)) := by
  rw [← h.values]
  cases hw : write? p.values with
  | none => exact h
  | some w =>
    exact ⟨hwell w hw, congrArg (Record.apply · w) h.values, h.writes.append (.refl _)⟩

/-- **Two writes can be exchanged** that go to different paths and do not depend on each other. -/
theorem similar_extend_extend (hp : p.values.WellFormed) {first? second? : Record → Option Write}
    (hwell : ∀ V w, V.WellFormed → first? V = some w ∨ second? V = some w → (V.apply w).WellFormed)
    (hfirst : ∀ w, second? p.values = some w → first? (p.values.apply w) = first? p.values)
    (hsecond : ∀ w, first? p.values = some w → second? (p.values.apply w) = second? p.values)
    (hcomm : ∀ w v, first? p.values = some w → second? p.values = some v → w.path ≠ v.path ∧
      (p.values.apply w).apply v = (p.values.apply v).apply w) :
    ((p.extend (first? p.values)).extend
        (second? (p.extend (first? p.values)).values)).Similar
      ((p.extend (second? p.values)).extend (first? (p.extend (second? p.values)).values)) := by
  cases hw : first? p.values with
  | none =>
    cases hv : second? p.values with
    | none =>
      simp only [extend, hw, hv]
      exact .refl hp
    | some v =>
      simp only [extend, hv, hfirst v hv, hw]
      exact .refl (hwell _ v hp (.inr hv))
  | some w =>
    cases hv : second? p.values with
    | none =>
      simp only [extend, hw, hsecond w hw, hv]
      exact .refl (hwell _ w hp (.inl hw))
    | some v =>
      obtain ⟨hne, hvalues⟩ := hcomm w v hw hv
      simp only [extend, hsecond w hw, hfirst v hv, hw, hv]
      refine ⟨hwell _ v (hwell _ w hp (.inl hw)) (.inr (hv ▸ hsecond w hw)), hvalues, ?_⟩
      rw [List.append_assoc, List.append_assoc]
      exact (SameAtPaths.refl _).append (.swap hne)

end Progress

/-- **The same settling values, reached by the same writes at each path**, and by the same writes
that clear. -/
structure Settling.Similar (st st' : Settling) : Prop where
  wellFormed : st.values.WellFormed
  values : st.values = st'.values
  computed : SameAtPaths st.computed st'.computed
  cleared : st.cleared = st'.cleared

/-! ## The writes of single computations

A step of a pass is a write that follows from the values, if there is one.  In this form two steps
can be exchanged by `Progress.similar_extend_extend`. -/

/-- What is proposed depends on the scope only where the computation reads it. -/
theorem Declaration.computedWrite?_congr {d : Declaration} {epsilon : Binary64} {path : String}
    {scope scope' : Record} {current : Option Value}
    (h : ∀ c, d.computation = some c → ∀ path ∈ c.inputs, scope.at? path = scope'.at? path) :
    d.computedWrite? epsilon path scope current = d.computedWrite? epsilon path scope' current := by
  rw [computedWrite?, computedWrite?, bind_evaluate_congr h]

/-- The write of the computation of a cell, if its row is there. -/
def cellWrite? (epsilon : Binary64) (list : String) (index : Nat) (column : Field)
    (values : Record) : Option Write :=
  (values.rowAt? list index).bind fun row ↦ column.computedWrite? epsilon
    (cellPath list index column.name) (values.overlay row) (row.at? column.name)

theorem computeCells_singleton (epsilon : Binary64) (list : String) (index : Nat) (column : Field)
    (p : Progress) : computeCells epsilon list index [column] p =
      p.extend (cellWrite? epsilon list index column p.values) := by
  simp only [computeCells, cellWrite?]
  cases p.values.rowAt? list index <;> rfl

namespace Schema

variable {s : Schema} {epsilon : Binary64} {values : Record} {name other : String}
  {list column : Field} {index : Nat} {w : Write} {p q : Progress} {order : List String}

/-- The write of the computation of a field. -/
def fieldWrite? (s : Schema) (epsilon : Binary64) (name : String) (values : Record) :
    Option Write :=
  (s.field? name).bind fun f ↦ f.computedWrite? epsilon name values (values.at? f.name)

theorem computeField_eq_extend (s : Schema) (epsilon : Binary64) (p : Progress) (name : String) :
    s.computeField epsilon p name = p.extend (s.fieldWrite? epsilon name p.values) := by
  rw [computeField, fieldWrite?]
  cases s.field? name <;> rfl

theorem computes_of_fieldWrite? (hname : name ∈ s.computeOrder) (hform : name ∉ s.rowNames)
    (hw : s.fieldWrite? epsilon name values = some w) : s.Computes epsilon values w := by
  obtain ⟨f, hf, hw⟩ := Option.bind_eq_some_iff.1 hw
  exact .field hname hform hf hw

theorem path_of_fieldWrite? (hw : s.fieldWrite? epsilon name values = some w) : w.path = name := by
  obtain ⟨f, hf, hw⟩ := Option.bind_eq_some_iff.1 hw
  rw [Declaration.computedWrite?_eq_some hw]

theorem computes_of_cellWrite? (hlist : list ∈ outerListsOf s.fields)
    (hcolumn : column ∈ s.computedCells list)
    (hw : cellWrite? epsilon list.name index column values = some w) :
    s.Computes epsilon values w := by
  obtain ⟨row, hrow, hw⟩ := Option.bind_eq_some_iff.1 hw
  exact .cell hlist hcolumn hrow hw

theorem path_of_cellWrite? (hw : cellWrite? epsilon list.name index column values = some w) :
    w.path = cellPath list.name index column.name := by
  obtain ⟨row, hrow, hw⟩ := Option.bind_eq_some_iff.1 hw
  rw [Declaration.computedWrite?_eq_some hw]

/-- What a field computes does not depend on what it ignores. -/
theorem fieldWrite?_apply (hapart : Apart name w.path)
    (hignores : ∀ f, s.field? name = some f → f.Ignores w.path) (values : Record) :
    s.fieldWrite? epsilon name (values.apply w) = s.fieldWrite? epsilon name values := by
  rw [fieldWrite?, fieldWrite?]
  cases hf : s.field? name with
  | none => rfl
  | some f =>
    rw [Option.bind_some, Option.bind_some, (mem_of_field? hf).2, apply, at?_write hapart,
      Declaration.computedWrite?_congr ((hignores f hf).at?_write values w.value)]

/-- What a cell computes does not depend on cells of its row that it ignores. -/
theorem cellWrite?_apply {written : Field} (hvalues : values.WellFormed)
    (hlist : isDotted list.name = false) (hcolumn : isDotted column.name = false)
    (hwritten : isDotted written.name = false) (hne : column.name ≠ written.name)
    (hignores : column.Ignores written.name)
    (hpath : column.Ignores (cellPath list.name index written.name))
    (hw : cellWrite? epsilon list.name index written values = some w) :
    cellWrite? epsilon list.name index column (values.apply w) =
      cellWrite? epsilon list.name index column values := by
  obtain ⟨row, hrow, -⟩ := Option.bind_eq_some_iff.1 hw
  have hordered := (hvalues.rowAt? hrow).ordered
  rw [cellWrite?, cellWrite?, apply, path_of_cellWrite? hw]
  by_cases hflat : values.HoldsFlat (cellPath list.name index written.name)
  · -- the cell is written beside the list, whose rows stay as they are
    have hname : list.name ≠ cellPath list.name index written.name := fun heq ↦ by
      rw [heq, isDotted_cellPath] at hlist
      cases hlist
    have hrow' : (values.write (cellPath list.name index written.name) w.value).rowAt? list.name
        index = some row := by
      rw [write_of_holdsFlat hflat, rowAt?_congr hlist (find?_put_of_ne hname), hrow]
    rw [hrow', hrow, Option.bind_some, Option.bind_some, Declaration.computedWrite?_congr
      (hpath.at?_overlay_write hordered values w.value)]
  · rw [hvalues.rowAt?_write_cellPath hflat hlist hwritten hrow, if_pos rfl, hrow, Option.bind_some,
      Option.bind_some, at?_of_not_isDotted hcolumn, find?_put_of_ne hne,
      ← at?_of_not_isDotted hcolumn, Declaration.computedWrite?_congr (hpath.at?_overlay_write_put
        hordered hignores hwritten values w.value w.value)]

/-! ## Computing in another order -/

/-- **A schema whose computations read one another by name only**: its names differ and are plain,
and no computation reads a cell of a list or takes a member of what is computed. -/
structure Untangled (s : Schema) : Prop where
  distinct : s.DistinctNames
  plain : s.PlainNames
  looksBack : ∀ f ∈ s.allFields, s.LooksBack f (outerListsOf s.fields)

/-- **The schema with its computations in another order.** -/
def reorder (s : Schema) (order : List String) : Schema := { s with computeOrder := order }

/-- Clearing does not depend on the order. -/
theorem clearRound_reorder (s : Schema) (order sources kept : List String) (values : Record) :
    (s.reorder order).clearRound sources kept values = s.clearRound sources kept values := by
  have heach : ∀ names p, (s.reorder order).clearEach names p = s.clearEach names p := by
    intro names
    induction names with
    | nil => exact fun _ ↦ rfl
    | cons name names ih => exact fun p ↦ ih _
  exact heach ..

/-- Clearing does not depend on the order of the sources. -/
theorem clearRound_congr {sources sources' kept : List String}
    (h : ∀ n, n ∈ sources ↔ n ∈ sources') :
    s.clearRound sources kept values = s.clearRound sources' kept values := by
  have htargets : s.clearTargets sources kept = s.clearTargets sources' kept := by
    rw [clearTargets, clearTargets, Names.ofList_congr fun n ↦ ?_]
    simp only [List.mem_flatMap, h]
  rw [clearRound, clearRound, htargets]

/-- Without members and cells, not to read a name is not to notice what is written there. -/
theorem Untangled.ignores (h : s.Untangled) {f : Field} (hf : f ∈ s.allFields)
    (havoids : s.Avoids f.name other) (hother : other ∈ s.computeOrder)
    (hdot : isDotted other = false) : f.Ignores other :=
  (h.looksBack f hf).ignores (h.distinct.field?_eq hf) havoids hother hdot

theorem Untangled.isDotted_of_fieldWrite? (h : s.Untangled)
    (hw : s.fieldWrite? epsilon name values = some w) : isDotted name = false := by
  obtain ⟨f, hf, -⟩ := Option.bind_eq_some_iff.1 hw
  exact h.plain.of_field? hf

/-- A field does not see a write to another one that it does not read. -/
theorem Untangled.fieldWrite?_apply (h : s.Untangled) (hne : name ≠ other)
    (havoids : s.Avoids name other) (hother : other ∈ s.computeOrder)
    (hw : s.fieldWrite? epsilon other values = some w) :
    s.fieldWrite? epsilon name (values.apply w) = s.fieldWrite? epsilon name values := by
  have hdot := h.isDotted_of_fieldWrite? hw
  cases hfield : s.field? name with
  | none => rw [fieldWrite?, fieldWrite?, hfield]; rfl
  | some f =>
    obtain ⟨hf, hname⟩ := mem_of_field? hfield
    refine Schema.fieldWrite?_apply
      (path_of_fieldWrite? hw ▸ apart_of_ne (h.plain.of_field? hfield) hdot hne)
      (fun g hg ↦ ?_) values
    obtain rfl := Option.some.inj (hfield.symm.trans hg)
    rw [path_of_fieldWrite? hw]
    exact h.ignores hf (hname.symm ▸ havoids) hother hdot

/-- **Two fields can be computed in either order** if neither reads the other one. -/
theorem Untangled.computeField_comm (h : s.Untangled) (hp : p.values.WellFormed)
    (hname : name ∈ s.computeOrder) (hform : name ∉ s.rowNames) (hother : other ∈ s.computeOrder)
    (hform' : other ∉ s.rowNames) (hnames : name ≠ other) (havoids : s.Avoids name other)
    (havoids' : s.Avoids other name) :
    (s.computeField epsilon (s.computeField epsilon p name) other).Similar
      (s.computeField epsilon (s.computeField epsilon p other) name) := by
  simp only [computeField_eq_extend]
  refine Progress.similar_extend_extend hp (fun V w hV hw ↦ ?_)
    (fun _ ↦ h.fieldWrite?_apply hnames havoids hother)
    (fun _ ↦ h.fieldWrite?_apply (Ne.symm hnames) havoids' hname) fun w v hw hv ↦ ?_
  · rcases hw with hw | hw
    · exact hV.apply_of_computes (computes_of_fieldWrite? hname hform hw)
    · exact hV.apply_of_computes (computes_of_fieldWrite? hother hform' hw)
  · have hapart : Apart w.path v.path := by
      rw [path_of_fieldWrite? hw, path_of_fieldWrite? hv]
      exact apart_of_ne (h.isDotted_of_fieldWrite? hw) (h.isDotted_of_fieldWrite? hv) hnames
    exact ⟨hapart.ne, write_comm hp hapart _ _⟩

/-- **Two cells of a row can be computed in either order** if neither reads the other one. -/
theorem Untangled.computeCells_comm (h : s.Untangled) (hp : p.values.WellFormed)
    (hlist : list ∈ outerListsOf s.fields) {other : Field} (hcolumn : column ∈ s.computedCells list)
    (hother : other ∈ s.computedCells list) (hnames : column.name ≠ other.name)
    (havoids : s.Avoids column.name other.name) (havoids' : s.Avoids other.name column.name) :
    (computeCells epsilon list.name index [other]
        (computeCells epsilon list.name index [column] p)).Similar
      (computeCells epsilon list.name index [column]
        (computeCells epsilon list.name index [other] p)) := by
  have hlistDot := h.plain.of_mem_lists hlist
  have hmem : ∀ c ∈ s.computedCells list, c ∈ s.allFields := fun c hc ↦
    mem_allFields_of_mem_computedCells hlist hc
  have hdot : ∀ c ∈ s.computedCells list, isDotted c.name = false := fun c hc ↦
    h.plain c (hmem c hc)
  have hkeeps : ∀ {c d}, c ∈ s.computedCells list → d ∈ s.computedCells list →
      c.name ≠ d.name → s.Avoids c.name d.name → ∀ w,
      cellWrite? epsilon list.name index d p.values = some w →
        cellWrite? epsilon list.name index c (p.values.apply w) =
          cellWrite? epsilon list.name index c p.values := fun hc hd hne havoids w hw ↦
    cellWrite?_apply hp hlistDot (hdot _ hc) (hdot _ hd) hne
      (h.ignores (hmem _ hc) havoids (mem_computedCells hd).2 (hdot _ hd))
      ((h.looksBack _ (hmem _ hc)).cells list hlist _ hd index) hw
  simp only [computeCells_singleton]
  refine Progress.similar_extend_extend hp (fun V w hV hw ↦ ?_)
    (hkeeps hcolumn hother hnames havoids) (hkeeps hother hcolumn (Ne.symm hnames) havoids')
    fun w v hw hv ↦ ?_
  · rcases hw with hw | hw
    · exact hV.apply_of_computes (computes_of_cellWrite? hlist hcolumn hw)
    · exact hV.apply_of_computes (computes_of_cellWrite? hlist hother hw)
  · have hwpath := path_of_cellWrite? hw
    have hvpath := path_of_cellWrite? hv
    have hfits : ∀ {c u}, c ∈ s.computedCells list →
        cellWrite? epsilon list.name index c p.values = some u → u.Fits := fun hc hu _ hx ↦
      (computes_of_cellWrite? hlist hc hu).wellFormed hp hx
    obtain ⟨row, hrow, -⟩ := Option.bind_eq_some_iff.1 hw
    have hne : w.path ≠ v.path := fun heq ↦ hnames ?_
    · exact ⟨hne, commutes_cellPath hp hlistDot (hdot _ hcolumn) (hdot _ hother) hrow hwpath hvpath
        (hfits hcolumn hw) (hfits hother hv) hne⟩
    · have hsegments := congrArg segments (hwpath.symm.trans (heq.trans hvpath))
      rw [segments_cellPath hlistDot, segments_cellPath hlistDot,
        segments_of_not_isDotted (hdot _ hcolumn), segments_of_not_isDotted (hdot _ hother)]
        at hsegments
      simpa using hsegments

/-- Rounds that start from the same sources and keep the same names. -/
structure SimilarRounds (sources kept : List String) (st : Settling) (sources' kept' : List String)
    (st' : Settling) : Prop where
  sources : ∀ n, n ∈ sources ↔ n ∈ sources'
  kept : kept = kept'
  settling : st.Similar st'

/-- A round in another order clears the same. -/
theorem SimilarRounds.clearRound_eq {sources kept sources' kept' : List String}
    {st st' : Settling} (hrounds : SimilarRounds sources kept st sources' kept' st') :
    (s.reorder order).clearRound sources' kept' st'.values =
      s.clearRound sources kept st.values := by
  rw [clearRound_reorder, ← clearRound_congr hrounds.sources, hrounds.kept, hrounds.settling.values]

section

variable (h : s.Untangled) (hs : s.InOrder) (hperm : s.computeOrder.Perm order)
  (horder : (s.reorder order).InOrder)

include h hs hperm horder

/-- The fields of the form come to the same in either order. -/
theorem Untangled.similar_computeFields (hpq : p.Similar q) :
    ((s.computeOrder.filter fun name ↦ !s.rowNames.contains name).foldl
        (s.computeField epsilon) p).Similar
      ((order.filter fun name ↦ !s.rowNames.contains name).foldl (s.computeField epsilon) q) := by
  have hmem : ∀ n ∈ s.computeOrder.filter (fun name ↦ !s.rowNames.contains name),
      n ∈ s.computeOrder ∧ n ∉ s.rowNames := fun n hn ↦
    ⟨(List.mem_filter.1 hn).1, by simpa using (List.mem_filter.1 hn).2⟩
  refine foldl_rel_of_perm Progress.Similar (s.computeField epsilon) Progress.Similar.symm
    Progress.Similar.trans (fun n hn p q hpq ↦ ?_) (fun a ha b hb hab hba p hp ↦ ?_)
    (hperm.filter _) (hs.filter _) (horder.filter _) hpq
  · rw [computeField_eq_extend, computeField_eq_extend]
    exact hpq.extend fun w hw ↦ hpq.wellFormed.apply_of_computes
      (computes_of_fieldWrite? (hmem n hn).1 (hmem n hn).2 hw)
  · exact h.computeField_comm hp.wellFormed (hmem a ha).1 (hmem a ha).2 (hmem b hb).1 (hmem b hb).2
      hab.1 hab.2 hba.2

/-- So do the cells of a row. -/
theorem Untangled.similar_computeCells (hlist : list ∈ outerListsOf s.fields) (hpq : p.Similar q)
    (index : Nat) :
    (computeCells epsilon list.name index (s.computedCells list) p).Similar
      (computeCells epsilon list.name index ((s.reorder order).computedCells list) q) := by
  rw [computeCells_eq_foldl, computeCells_eq_foldl]
  refine foldl_rel_of_perm Progress.Similar _ Progress.Similar.symm Progress.Similar.trans
    (fun c hc p q hpq ↦ ?_) (fun c hc d hd hcd hdc p hp ↦ ?_) (hperm.filterMap _)
    (hs.pairwise_computedCells list) (horder.pairwise_computedCells list) hpq
  · rw [computeCells_singleton, computeCells_singleton]
    exact hpq.extend fun w hw ↦
      hpq.wellFormed.apply_of_computes (computes_of_cellWrite? hlist hc hw)
  · exact h.computeCells_comm hp.wellFormed hlist hc hd hcd.1 hcd.2 hdc.2

/-- So do all rows of a list. -/
theorem Untangled.similar_computeRows (hlist : list ∈ outerListsOf s.fields)
    (hpq : p.Similar q) :
    (s.computeRows epsilon p list).Similar ((s.reorder order).computeRows epsilon q list) := by
  have hempty : (s.computedCells list).isEmpty =
      ((s.reorder order).computedCells list).isEmpty := by
    have hcells : (s.computedCells list).Perm ((s.reorder order).computedCells list) :=
      hperm.filterMap _
    rw [Bool.eq_iff_iff, List.isEmpty_iff, List.isEmpty_iff]
    exact ⟨fun hnil ↦ (hnil ▸ hcells).nil_eq.symm, fun hnil ↦ (hnil ▸ hcells).eq_nil⟩
  rw [computeRows, computeRows, hempty, hpq.values]
  split
  · exact hpq
  · exact List.foldl_rel hpq fun index _ p q hpq ↦
      h.similar_computeCells hs hperm horder hlist hpq index

/-- **A pass in another order** makes the same writes at each path. -/
theorem Untangled.similar_computePass (hvalues : values.WellFormed) :
    (s.computePass epsilon values).Similar ((s.reorder order).computePass epsilon values) := by
  rw [computePass, computePass]
  refine List.foldl_rel (h.similar_computeFields hs hperm horder (.refl hvalues))
    fun list hlist p q hpq ↦ ?_
  exact h.similar_computeRows hs hperm horder hlist hpq

/-- **The pass behind a round** computes the same at each path. -/
theorem Untangled.similar_round {sources kept sources' kept' : List String} {st st' : Settling}
    (hrounds : SimilarRounds sources kept st sources' kept' st') :
    let round := s.clearRound sources kept st.values
    let pass := s.computePass epsilon round.values
    let round' := (s.reorder order).clearRound sources' kept' st'.values
    let pass' := (s.reorder order).computePass epsilon round'.values
    SimilarRounds ((round.writes ++ pass.writes).map (·.path))
      (kept ++ round.writes.map (·.path))
      ⟨pass.values, mergeWrites st.computed pass.writes, st.cleared ++ round.writes⟩
      ((round'.writes ++ pass'.writes).map (·.path)) (kept' ++ round'.writes.map (·.path))
      ⟨pass'.values, mergeWrites st'.computed pass'.writes, st'.cleared ++ round'.writes⟩ := by
  intro round pass
  rw [hrounds.clearRound_eq]
  intro round' pass'
  obtain ⟨-, rfl, hst⟩ := hrounds
  have hwell : round.values.WellFormed :=
    hst.wellFormed.clearRound
  have hpass : pass.Similar pass' := h.similar_computePass hs hperm horder hwell
  refine ⟨fun n ↦ ?_, rfl, hpass.wellFormed, hpass.values, hst.computed.mergeWrites hpass.writes,
    by rw [hst.cleared]⟩
  rw [List.map_append, List.map_append, List.mem_append, List.mem_append, hpass.writes.paths_iff]

/-- **Settling in another order** leads to the same values by the same writes at each path. -/
theorem Untangled.similar_settle {sources kept sources' kept' : List String} {st st' : Settling}
    (hrounds : SimilarRounds sources kept st sources' kept' st') :
    (s.settle epsilon sources kept st).Similar
      ((s.reorder order).settle epsilon sources' kept' st') := by
  obtain ⟨_, _, _, _, hlast⟩ := settle_in_step (R := SimilarRounds) hrounds
    (fun _ _ _ _ _ _ hrounds ↦ by rw [hrounds.clearRound_eq])
    fun _ _ _ _ _ _ hrounds ↦ h.similar_round hs hperm horder hrounds
  exact hlast.settling

/-- **Any order of the computations proposes the same**: the same computed writes, one way or
another ordered, the same writes that clear, and the same states. -/
theorem Untangled.recompute_reorder (flags : FormFlags) (epsilon : Binary64)
    (previous : Option Record) {next : Record} (hnext : next.WellFormed) :
    let u := s.recompute flags epsilon previous next
    let u' := (s.reorder order).recompute flags epsilon previous next
    u.computed.Perm u'.computed ∧ u.cleared = u'.cleared ∧ u.states = u'.states := by
  have hpass : (s.computePass epsilon next).Similar ((s.reorder order).computePass epsilon next) :=
    h.similar_computePass hs hperm horder hnext
  have hstart : Settling.Similar ⟨(s.computePass epsilon next).values,
      mergeWrites [] (s.computePass epsilon next).writes, []⟩
      ⟨((s.reorder order).computePass epsilon next).values,
        mergeWrites [] ((s.reorder order).computePass epsilon next).writes, []⟩ :=
    ⟨hpass.wellFormed, hpass.values, (SameAtPaths.refl []).mergeWrites hpass.writes, rfl⟩
  have hsettling : (s.settling epsilon previous next).Similar
      ((s.reorder order).settling epsilon previous next) := by
    refine h.similar_settle hs hperm horder ⟨fun n ↦ ?_, rfl, hstart⟩
    rw [List.mem_append, List.mem_append, hpass.writes.paths_iff]
    rfl
  intro u u'
  refine ⟨hsettling.computed.perm, hsettling.cleared, ?_⟩
  exact congrArg (s.states · flags) hsettling.values

end

end Schema

end ReactiveForm
