import ReactiveForm.Proofs.Fields
import ReactiveForm.Proofs.Validation

/-!
# Values that are required and not there

A field *lacks* its value (`Field.Lacks`) if it must have one and there is none, neither a value nor
an empty one, and if it is shown, with all groups and lists around it.  `Schema.validate_lacks` says
that the form is then not valid, and that there is a message at the path of the field.

There is one exception, and the theorem says that it is one.  An upload leaves it to its rule for
the least number of files whether it must have any (`Declaration.WaivesRequired`).  A rule that asks
for no file, or has no number at all, lets an upload without files pass that is required.

To lack a value is one way to be at fault, so all there is to show is that one of the checks of the
field fails.
-/

set_option autoImplicit false
namespace ReactiveForm

variable {m : Criteria} {d : Declaration} {value : Option Value} {scope : Record}

/-- **Whether there is no value**, or an empty one. -/
def Value.IsAbsent (value : Option Value) : Prop := value = none ∨ value = some .null

namespace Declaration

/-- **Whether a field lets its value be missing although it is required**: an upload with a rule for
the least number of files does, unless the rule asks for one. -/
def WaivesRequired (d : Declaration) : Prop :=
  d.kind = .upload ∧ ∃ r, d.rule? .array = some r ∧ ∀ count, r.count? = some count → count = 0

/-! ## The checks of a value that is not there -/

/-- Of an upload without files it is only checked whether it may have none. -/
theorem uploadFailure?_of_isAbsent (h : Value.IsAbsent value) :
    uploadFailure? m d value true = match d.rule? .array with
      | some r => if r.count?.any (0 < ·) then some (d.ruleMessage m r) else none
      | none => some (d.requiredMessage m) := by
  have hcount : fileCount value = 0 := by rcases h with rfl | rfl <;> rfl
  rw [uploadFailure?, hcount]
  cases d.rule? .array with
  | none => rfl
  | some r => cases hfew : r.count?.any (0 < ·) <;> simp [hfew]

theorem failure?_of_waivesRequired (h : d.WaivesRequired) (habsent : Value.IsAbsent value) :
    d.failure? m value true scope = none := by
  obtain ⟨hkind, r, hrule, hcount⟩ := h
  have hfew : r.count?.any (0 < ·) = false := by
    cases hr : r.count? with
    | none => rfl
    | some count => simp [hcount count hr]
  rw [failure?, hkind, uploadFailure?_of_isAbsent habsent, hrule]
  simp [hfew]

/-- **A required value that is not there fails**, unless that is waived. -/
theorem exists_check_of_isAbsent (hgroup : d.kind ≠ .group) (hhidden : d.kind ≠ .hidden)
    (hwaives : ¬ d.WaivesRequired) (habsent : Value.IsAbsent value) :
    ∃ c ∈ d.checks m value true scope, c.fails = true := by
  by_cases hupload : d.kind = .upload
  · have hfails : (firstFailure? (d.checks m value true scope)).isSome = true := by
      rw [← uploadFailure?_eq hupload, uploadFailure?_of_isAbsent habsent]
      cases hrule : d.rule? .array with
      | none => rfl
      | some r =>
        have hfew : r.count?.any (0 < ·) = true := by
          by_contra hnone
          refine hwaives ⟨hupload, r, hrule, fun count hcount ↦ ?_⟩
          simpa [hcount] using hnone
        simp [hfew]
    rw [firstFailure?, Option.isSome_map] at hfails
    exact List.find?_isSome.1 hfails
  · have hmissing : d.isMissing value = true := by
      rw [isMissing.eq_def]
      rcases habsent with rfl | rfl <;> cases hkind : d.kind <;> cases d.multiple <;> simp_all <;>
        rfl
    exact ⟨_, List.mem_cons_self, by rw [hmissing]; rfl⟩

end Declaration

/-! ## Fields that lack their values -/

/-- **A field lacks its value** at a path: `g` is the field itself or is reached from it through
groups and rows of lists that are shown; it is shown and required, and there is no value.  As for a
fault, values are read from `source`, conditions see the values of a scope, and `locate` tells the
path that belongs to a name. -/
inductive Field.Lacks (g : Field) : Field → (String → String) → Record → Record → String → Prop
  /-- The field itself has no value. -/
  | here {locate : String → String} {source scope : Record} (hvisible : g.isVisible scope = true)
      (hkind : g.kind ≠ .group) (hrequired : g.isRequiredAt scope = true)
      (habsent : Value.IsAbsent (source.at? g.name)) :
      Lacks g g locate source scope (locate g.name)
  /-- A field of a group that is shown lacks its value. -/
  | inGroup {f column : Field} {locate : String → String} {source scope : Record} {path : String}
      (hvisible : f.isVisible scope = true) (hkind : f.kind = .group)
      (hcolumn : column ∈ f.columns) (h : Lacks g column locate source scope path) :
      Lacks g f locate source scope path
  /-- A column lacks its value in a row of a list of records that is shown. -/
  | inRow {f column : Field} {locate : String → String} {source scope : Record} {path : String}
      {rows : List Record} {i : Nat} {row : Record} (hvisible : f.isVisible scope = true)
      (hkind : f.kind = .list) (hrows : source.at? f.name = some (.list (rows.map .record)))
      (hrow : rows[i]? = some row) (hcolumn : column ∈ f.columns)
      (h : Lacks g column (cellPath (locate f.name) i) row (scope.overlay row) path) :
      Lacks g f locate source scope path

/-- **A field that lacks its value is at fault**, unless that is waived. -/
theorem Field.Lacks.fault {f g : Field} {locate : String → String} {source scope : Record}
    {path : String} (h : g.Lacks f locate source scope path) (hwaives : ¬ g.WaivesRequired) :
    ∃ place message, f.Fault m locate source scope place path message := by
  induction h with
  | @here locate source scope hvisible hkind hrequired habsent =>
    have hhidden : g.kind ≠ .hidden := by
      intro hhidden
      simp [Declaration.isVisible, hhidden] at hvisible
    have hfailing : ∃ c ∈ g.checks m (source.at? g.name) true scope, c.fails = true :=
      Declaration.exists_check_of_isAbsent hkind hhidden hwaives habsent
    obtain ⟨c, hc, hfails⟩ := hfailing
    obtain ⟨k, hk⟩ := List.mem_iff_getElem?.1 hc
    have hchecks : (g.checksIn m (source.at? g.name) scope)[k]? = some c := by
      rw [Declaration.checksIn, if_pos hvisible, hrequired, hk]
    exact ⟨_, _, .check hkind hchecks hfails⟩
  | inGroup hvisible hkind hcolumn _ ih =>
    obtain ⟨place, message, hfault⟩ := ih
    obtain ⟨k, hk⟩ := List.mem_iff_getElem?.1 hcolumn
    exact ⟨_, _, .inGroup hvisible hkind hk hfault⟩
  | inRow hvisible hkind hrows hrow hcolumn _ ih =>
    obtain ⟨place, message, hfault⟩ := ih
    obtain ⟨k, hk⟩ := List.mem_iff_getElem?.1 hcolumn
    exact ⟨_, _, .inRow hvisible hkind hrows hrow hk hfault⟩

namespace Schema

variable {s : Schema} {values : Record} {g : Field} {path : String}

/-- **A field of a form lacks its value** at a path. -/
def Lacks (s : Schema) (values : Record) (g : Field) (path : String) : Prop :=
  ∃ f ∈ s.fields, g.Lacks f id values values path

/-- A form with a failure is not valid, and has a message where the failure is. -/
theorem exists_validate_eq_invalid
    (h : path ∈ Table.names (failuresAmong m id values values s.fields)) :
    ∃ messages, s.validate m values = .invalid messages ∧ path ∈ Table.names messages := by
  refine ⟨Table.ofFirst (failuresAmong m id values values s.fields), ?_, ?_⟩
  · rw [validate_eq]
    split
    · rename_i hnone
      rw [hnone] at h
      exact absurd h List.not_mem_nil
    · rfl
  · rwa [← Table.has_iff_mem_names, Table.has, Table.find?_ofFirst, ← Table.has,
      Table.has_iff_mem_names]

/-- **A field that lacks its value is reported**, wherever it is, unless it is an upload that leaves
it to a rule for the least number of files; such a field passes. -/
theorem validate_lacks (h : s.Lacks values g path) (m : Criteria) :
    (¬ g.WaivesRequired →
      ∃ messages, s.validate m values = .invalid messages ∧ path ∈ Table.names messages) ∧
    (g.WaivesRequired → ∀ value scope, Value.IsAbsent value →
      g.failure? m value true scope = none) := by
  refine ⟨fun hwaives ↦ exists_validate_eq_invalid ?_, fun hwaives value scope habsent ↦
    Declaration.failure?_of_waivesRequired hwaives habsent⟩
  obtain ⟨f, hf, hlacks⟩ := h
  obtain ⟨place, message, hfault⟩ := hlacks.fault (m := m) hwaives
  obtain ⟨k, hk⟩ := List.mem_iff_getElem?.1 hf
  exact (s.reports m values).mem_names_iff.2 ⟨_, _, k, f, place, hk, rfl, hfault⟩

/-- The code of an item, which must be there if its parcel is fragile. -/
def itemCode : Field where
  name := "code"
  component := "input"
  requiredWhen := some (.equals "fragile" (.bool true))

/-- The items of a parcel. -/
def parcelItems : Field where
  name := "items"
  component := "list"
  columns := [{ name := "handling", component := "group", columns := [itemCode] }]

/-- Parcels of items. -/
def parcelSchema : Schema where
  fields := [{ name := "parcels", component := "list", columns := [parcelItems] }]
  computeOrder := []

/-- A code that is missing in a row of a row is reported there. -/
theorem parcelSchema_lacks_code :
    let values : Record := [("parcels",
      .list [.record [("fragile", .bool true), ("items", .list [.record [("code", .null)]])]])]
    parcelSchema.Lacks values itemCode "parcels.0.items.0.code" ∧ ¬ itemCode.WaivesRequired ∧
      ∃ messages, parcelSchema.validate {} values = .invalid messages ∧
        "parcels.0.items.0.code" ∈ Table.names messages := by
  intro values
  let item : Record := [("code", .null)]
  let parcel : Record := [("fragile", .bool true), ("items", .list [.record item])]
  have hwaives : ¬ itemCode.WaivesRequired := fun h ↦ absurd h.1 (by decide)
  have hcode : itemCode.Lacks itemCode (cellPath (cellPath "parcels" 0 "items") 0) item
      ((values.overlay parcel).overlay item) "parcels.0.items.0.code" :=
    .here (by decide +kernel) (by decide) (by decide +kernel) (.inr rfl)
  have hitemRows : parcel.at? "items" = some (.list (List.map .record [item])) := rfl
  have hitems : itemCode.Lacks parcelItems (cellPath "parcels" 0) parcel
      (values.overlay parcel) "parcels.0.items.0.code" :=
    .inRow (by decide +kernel) (by decide) hitemRows rfl List.mem_cons_self
      (.inGroup (by decide +kernel) (by decide) List.mem_cons_self hcode)
  have hparcelRows : values.at? "parcels" = some (.list (List.map .record [parcel])) := rfl
  have hparcels : parcelSchema.Lacks values itemCode "parcels.0.items.0.code" :=
    ⟨_, List.mem_cons_self,
      .inRow (by decide +kernel) (by decide) hparcelRows rfl List.mem_cons_self hitems⟩
  exact ⟨hparcels, hwaives, (validate_lacks hparcels {}).1 hwaives⟩

/-- A letter of application, which must be there, with a rule for the number of files that does not
say how many. -/
def letter : Field where
  name := "letter"
  component := "upload"
  rules := [.required, { kind := .array }]

/-- A form is accepted and valid without the one file that it must have. -/
theorem validate_overlooks_letter :
    let s : Schema := ⟨[letter], []⟩
    ofFields defaultDepthLimit s.fields = .ok s ∧ s.Lacks [] letter "letter" ∧
      s.validate {} [] = .valid [] := by
  intro s
  refine ⟨ofFields_of_order rfl (by cbv), ?_, ?_⟩
  · exact ⟨letter, List.mem_cons_self, .here rfl (by decide) rfl (.inl rfl)⟩
  · exact validate_eq_valid_iff.2 rfl

end Schema

end ReactiveForm
