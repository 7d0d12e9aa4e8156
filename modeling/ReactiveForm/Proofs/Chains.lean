import ReactiveForm.Proofs.Settled

/-!
# Chains through rows

What a recomputation settles where computations read cells.

A chain of computations is settled by one recomputation as long as each of them looks back: a field
of the form at other fields of the form and at what no computation fills in, a cell also at the
cells of lists before its own (`Schema.recompute_settles_of_looksBack`).  Nothing is asked of the
other computations of the schema, not even that they settle.

A chain that leads from a cell back to a field of the form is not settled.  Fields of the form are
computed first, and no pass comes back to them, so such a field keeps what it had computed from the
cell as it was (`Schema.recompute_leaves_billed`).
-/

set_option autoImplicit false
namespace ReactiveForm

open Record

namespace Schema

variable {s : Schema} {limit : Nat} {fs : List Field} {epsilon : Binary64} {e : Finite64}
  {next : Record}

/-- Who reads nothing under the names of some lists, and no members under those of computed fields,
looks back from the lists. -/
theorem looksBack_of_head? {f : Field} {later : List Field} (h : s.PlainNames)
    (hs : ofFields limit fs = .ok s) (hlater : later ⊆ outerListsOf s.fields)
    (hlists : ∀ c ∈ f.computation, ∀ path ∈ c.inputs, ∀ list ∈ later,
      (segments path).head? ≠ some list.name)
    (hmembers : ∀ c ∈ f.computation, ∀ path ∈ c.inputs, isDotted path = true →
      ∀ name ∈ s.computeOrder, (segments path).head? ≠ some name) : s.LooksBack f later where
  cells list hlist column _ index c hc path hpath := by
    refine apart_of_head?_ne ?_
    rw [segments_cellPath (h.of_mem_lists (hlater hlist))]
    exact hlists c hc path hpath list hlist
  members c hc path hpath hdotted name hname := by
    refine apart_of_head?_ne ?_
    rw [segments_of_not_isDotted (h.of_mem_computeOrder hs hname)]
    exact hmembers c hc path hpath hdotted name hname

/-- **One recomputation settles what looks back**: after its writes a computed field of the form
that looks back agrees with its computation, and so does, in every row, a computed cell that looks
back from its own list and those behind it. -/
theorem recompute_settles_of_looksBack (hs : ofFields limit fs = .ok s) (h : s.Replayable)
    (he : 0 ≤ e.signed) (flags : FormFlags) (previous : Option Record) (hplain : next.Plain)
    (hnext : next.WellFormed) :
    let settled := next.applyAll (s.recompute flags (.finite e) previous next).writes
    (∀ f ∈ s.allFields, f.computation.isSome → f.name ∉ s.rowNames →
      s.LooksBack f (outerListsOf s.fields) → f.Agrees (.finite e) settled (settled.at? f.name)) ∧
    ∀ before list after, outerListsOf s.fields = before ++ list :: after →
      ∀ column ∈ cellsOf list.columns, column.computation.isSome →
        s.LooksBack column (list :: after) →
        ∀ index row, settled.rowAt? list.name index = some row →
          column.Agrees (.finite e) (settled.overlay row) (row.at? column.name) := by
  intro settled
  obtain ⟨values, hvalues, hpass⟩ :=
    (settling_reached hs h (.finite e) previous ⟨hplain, hnext⟩).passed
  have hsettled : settled = (s.computePass (.finite e) values).values :=
    (h.applyAll_writes hs flags (.finite e) previous ⟨hplain, hnext⟩).trans hpass
  rw [hsettled]
  refine ⟨fun f hf hcompute hform hback ↦ ?_,
    fun before list after hlists column hcolumn hcompute hback index ↦ ?_⟩
  · have hname := (mem_computeOrder_iff hs).2 ⟨f, hf, rfl, hcompute⟩
    have hfield := h.distinct.field?_eq hf
    exact fieldAgrees_computePass hs h he hvalues hname hform hfield hback f hfield
  · have hlist : list ∈ outerListsOf s.fields := by simp [hlists]
    exact cellAgrees_computePass hs h he hvalues hlists
      (mem_computedCells_of_computed hs h.distinct hlist hcolumn hcompute) hback index

/-- A fee that follows from a rate. -/
def fee : Field where
  name := "fee"
  component := "number"
  computation := some { source := "rate * 2" }

/-- A bill that is to be paid once the first line has an amount. -/
def billed : Field where
  name := "billed"
  component := "switch"
  computation := some { source := "true", dependencies := some ["lines.0.amount"] }

/-- An amount that follows from the fee. -/
def amount : Field where
  name := "amount"
  component := "number"
  computation := some { source := "qty * fee" }

/-- A receipt that is to be given once the first line has an amount. -/
def given : Field where
  name := "given"
  component := "switch"
  computation := some { source := "true", dependencies := some ["lines.0.amount"] }

/-- A bill for some lines, with receipts behind them. -/
def ledgerSchema : Schema where
  fields := [{ name := "rate", component := "number" }, fee, billed,
    { name := "lines", component := "list",
      columns := [{ name := "qty", component := "number" }, amount] },
    { name := "receipts", component := "list", columns := [given] }]
  computeOrder := ["fee", "amount", "billed", "given"]

theorem ofFields_ledgerSchema :
    ofFields defaultDepthLimit ledgerSchema.fields = .ok ledgerSchema := by
  have hgraph : computeGraph ledgerSchema.fields =
      [("amount", ["fee", "qty"]), ("billed", ["lines.0.amount"]), ("fee", ["rate"]),
        ("given", ["lines.0.amount"])] := by decide +kernel
  refine ofFields_of_order rfl ?_
  rw [hgraph]
  simp [Graph.order, Graph.placeAll, Graph.place, Table.names, Table.find?, List.lookup_cons,
    Except.map, ledgerSchema]

/-- A ledger with one line and one receipt. -/
def ledgerValues : Record :=
  [("lines", .list [.record [("qty", .integer 3)]]), ("rate", .integer 2),
    ("receipts", .list [.record []])]

theorem ledgerValues_wellFormed : ledgerValues.WellFormed := by decide +kernel

/-- A bill is settled by a single pass. -/
theorem applyAll_writes_ledgerSchema :
    ledgerValues.applyAll (ledgerSchema.recompute {} (.finite .zero) none ledgerValues).writes =
      (ledgerSchema.computePass (.finite .zero) ledgerValues).values := by
  have hreplayable : ledgerSchema.Replayable := by decide +kernel
  rw [hreplayable.applyAll_writes ofFields_ledgerSchema {} (.finite .zero) none
    ⟨by decide, ledgerValues_wellFormed⟩, settling_of_clearable_eq_nil (by decide +kernel)]

/-- The fee looks back, the amounts of the lines do, and so do the receipts behind them: a chain
from the form into two lists is settled. -/
theorem ledger_settles :
    let settled := ledgerValues.applyAll
      (ledgerSchema.recompute {} (.finite .zero) none ledgerValues).writes
    fee.Agrees (.finite .zero) settled (settled.at? "fee") ∧
    (∀ row, settled.rowAt? "lines" 0 = some row →
      amount.Agrees (.finite .zero) (settled.overlay row) (row.at? "amount")) ∧
    ∀ row, settled.rowAt? "receipts" 0 = some row →
      given.Agrees (.finite .zero) (settled.overlay row) (row.at? "given") := by
  intro settled
  obtain ⟨hfields, hcells⟩ := recompute_settles_of_looksBack ofFields_ledgerSchema
    (by decide +kernel) (e := .zero) (by decide) {} none (by decide) ledgerValues_wellFormed
  have hplain : ledgerSchema.PlainNames := by decide +kernel
  have hfee : ledgerSchema.LooksBack fee (outerListsOf ledgerSchema.fields) :=
    looksBack_of_head? hplain ofFields_ledgerSchema (List.Subset.refl _) (by decide +kernel)
      (by decide +kernel)
  have hamount : ledgerSchema.LooksBack amount (outerListsOf ledgerSchema.fields) :=
    looksBack_of_head? hplain ofFields_ledgerSchema (List.Subset.refl _) (by decide +kernel)
      (by decide +kernel)
  have hgiven : ledgerSchema.LooksBack given (outerListsOf (ledgerSchema.fields.drop 4)) :=
    looksBack_of_head? hplain ofFields_ledgerSchema (fun _ ↦ List.mem_cons_of_mem _)
      (by decide +kernel) (by decide +kernel)
  exact ⟨hfields fee (List.mem_cons_of_mem _ List.mem_cons_self) rfl (by decide +kernel) hfee,
    hcells [] _ _ rfl amount (List.mem_cons_of_mem _ List.mem_cons_self) rfl hamount 0,
    hcells [_] _ _ rfl given List.mem_cons_self rfl hgiven 0⟩

/-- **The bill is left behind**: it was computed when the first line had no amount yet, and does not
agree with its computation once the amount is there. -/
theorem recompute_leaves_billed :
    let settled := ledgerValues.applyAll
      (ledgerSchema.recompute {} (.finite .zero) none ledgerValues).writes
    ofFields defaultDepthLimit ledgerSchema.fields = .ok ledgerSchema ∧
      ledgerSchema.DistinctNames ∧ billed ∈ ledgerSchema.allFields ∧
      "billed" ∉ ledgerSchema.rowNames ∧ billed.computation.isSome ∧
      ¬billed.Agrees (.finite .zero) settled (settled.at? "billed") := by
  intro settled
  have hbilled : changesMaterially (settled.at? "billed")
      (billed.computation.bind (·.evaluate settled)) (.finite .zero) = true := by
    rw [show settled = _ from applyAll_writes_ledgerSchema]
    decide +kernel
  have hmem : billed ∈ ledgerSchema.allFields :=
    List.mem_cons_of_mem _ (List.mem_cons_of_mem _ List.mem_cons_self)
  refine ⟨ofFields_ledgerSchema, by decide +kernel, hmem, by decide +kernel, rfl, fun hagrees ↦ ?_⟩
  rw [Declaration.Agrees, hbilled] at hagrees
  cases hagrees

end Schema

end ReactiveForm
