import ReactiveForm.Proofs.Checks
import ReactiveForm.Proofs.Defaults
import ReactiveForm.Proofs.Path

/-!
# Every row of a list is a form

The columns of a list could be the fields of a form of their own, with the values of a row laid over
those around the list.  `Schema.validate_rows` says that validating the list comes to validating
that form on every row: what is said of a row is what is said of the form, at the same paths below
the path of the row.

The one thing a form sees and a row does not is a value from outside the list under the name of a
column.  A row reads its cells from itself alone, while the form reads its fields from all the
values, so the values around the list may not define the name of a cell.

That the paths of a row are those of the form moved below it is a matter of `failuresAmong_under`;
that different rows do not share a path is a matter of row numbers, which have no points.
-/

set_option autoImplicit false
namespace ReactiveForm

variable {m : Criteria} {values source scope : Record} {path : String}

/-! ## Moving failures below a path -/

/-- Failures with something in front of their paths. -/
def Failures.under (front : String) (failures : Failures) : Failures :=
  failures.map fun e ↦ (front ++ e.1, e.2)

theorem Failures.under_append (front : String) (failures more : Failures) :
    (failures ++ more : Failures).under front = failures.under front ++ more.under front :=
  List.map_append

theorem Failures.find?_under (front : String) (failures : Failures) (rest : String) :
    Table.find? (failures.under front) (front ++ rest) = Table.find? failures rest := by
  induction failures with
  | nil => rfl
  | cons e failures ih =>
    rw [under, List.map_cons, Table.find?_cons, Table.find?_cons, ← under, ih]
    simp only [String.append_right_inj]

theorem Failures.exists_of_find?_under {front : String} {failures : Failures} {message : String}
    (h : Table.find? (failures.under front) path = some message) :
    ∃ rest, path = front ++ rest := by
  obtain ⟨e, -, he⟩ := List.mem_map.1 (Table.mem_of_find? h)
  exact ⟨e.1, (congrArg Prod.fst he).symm⟩

theorem Declaration.failuresAt_under {d : Declaration} {value : Option Value} {required : Bool}
    {columns : List Field} (front : String)
    (h : ∀ (index : Nat) (row scope : Record),
      failuresAmong m (cellPath (front ++ path) index) row scope columns =
        (failuresAmong m (cellPath path index) row scope columns).under front) :
    d.failuresAt m (rowFailures m columns) (front ++ path) value required scope =
      (d.failuresAt m (rowFailures m columns) path value required scope).under front := by
  rw [failuresAt_eq, failuresAt_eq, Failures.under_append]
  congr 1
  · rw [Failures.under, List.map_map]
    rfl
  · rw [Failures.under, List.map_flatMap]
    congr 1
    funext ⟨row, index⟩
    dsimp only
    rw [rowFailures_eq, rowFailures_eq, h]
    rfl

theorem cellPath_append (front path : String) (index : Nat) (name : String) :
    cellPath (front ++ path) index name = front ++ cellPath path index name := by
  simp only [cellPath, String.append_assoc]

mutual

theorem Field.failuresAmong_under (front : String) : ∀ (f : Field) (locate : String → String)
    (source scope : Record),
    f.failuresAmong m (fun name ↦ front ++ locate name) source scope =
      (f.failuresAmong m locate source scope).under front
  | ⟨d, columns⟩, locate, source, scope => by
    rw [Field.failuresAmong, Field.failuresAmong]
    split
    · rfl
    · split
      · exact failuresAmong_under front columns locate source scope
      · refine Declaration.failuresAt_under front fun index row scope ↦ ?_
        simp only [funext (cellPath_append front (locate d.name) index)]
        exact failuresAmong_under front columns _ row scope

/-- **Failures below a path** are those at the top, moved below it. -/
theorem failuresAmong_under (front : String) : ∀ (fs : List Field) (locate : String → String)
    (source scope : Record),
    failuresAmong m (fun name ↦ front ++ locate name) source scope fs =
      (failuresAmong m locate source scope fs).under front
  | [], _, _, _ => by
    rw [failuresAmong, failuresAmong]
    rfl
  | f :: fs, locate, source, scope => by
    rw [failuresAmong, failuresAmong, Failures.under_append, f.failuresAmong_under front locate,
      failuresAmong_under front fs locate]

end

/-! ## Where values are read from -/

mutual

theorem Field.failuresAmong_congr {locate : String → String} {other : Record} : ∀ f : Field,
    (∀ cell ∈ f.cells, source.at? cell.name = other.at? cell.name) →
      f.failuresAmong m locate source scope = f.failuresAmong m locate other scope
  | ⟨d, columns⟩, h => by
    rw [Field.failuresAmong, Field.failuresAmong]
    rw [Field.cells] at h
    split
    · rfl
    · split
      · rename_i hgroup
        rw [if_pos hgroup] at h
        exact failuresAmong_congr columns h
      · rename_i hleaf
        rw [if_neg hleaf] at h
        rw [h ⟨d, columns⟩ List.mem_cons_self]

/-- **The failures of some fields** depend on the values of their cells, and on no other value but
for those of the scope. -/
theorem failuresAmong_congr {locate : String → String} {other : Record} : ∀ fs : List Field,
    (∀ cell ∈ cellsOf fs, source.at? cell.name = other.at? cell.name) →
      failuresAmong m locate source scope fs = failuresAmong m locate other scope fs
  | [], _ => by rw [failuresAmong, failuresAmong]
  | f :: fs, h => by
    rw [cellsOf] at h
    rw [failuresAmong, failuresAmong,
      f.failuresAmong_congr fun cell hcell ↦ h cell (List.mem_append_left _ hcell),
      failuresAmong_congr fs fun cell hcell ↦ h cell (List.mem_append_right _ hcell)]

end

/-- Under a name that is not defined below, what is found in an overlay is what is found above. -/
theorem Record.at?_overlay_of_eq_none {lower upper : Record} (h : Table.Ordered upper)
    (hnone : lower.at? path = none) : Record.at? (lower.overlay upper) path = upper.at? path := by
  have hlower : Table.find? lower path = none := by
    cases hfind : Table.find? lower path with
    | none => rfl
    | some v => simp [Record.at?, hfind] at hnone
  rw [Record.at?_overlay lower h, hlower, Option.none_or]
  cases hupper : Table.find? upper path with
  | some v => simp [Record.at?, hupper]
  | none =>
    rw [Option.none_or]
    split
    · rfl
    · rename_i hhead
      cases hv : upper.at? path with
      | none => exact hnone
      | some v => exact absurd (Record.any_has_of_at?_eq_some hv hupper) hhead

/-! ## Paths of rows -/

/-- What stands in front of the paths of the cells of a row. -/
def rowFront (list : String) (index : Nat) : String := rowPath list index ++ "."

/-- Different rows have no path in common. -/
theorem rowFront_append_inj {list rest rest' : String} {i j : Nat}
    (h : rowFront list i ++ rest = rowFront list j ++ rest') : i = j := by
  simp only [rowFront, rowPath, String.append_assoc, String.append_right_inj] at h
  simp only [← String.append_assoc] at h
  have hsegments := congrArg segments h
  rw [segments_append, segments_append, segments_of_not_isDotted (isDotted_toString i),
    segments_of_not_isDotted (isDotted_toString j)] at hsegments
  exact toString_inj (List.cons.inj hsegments).1

/-- What is found at a path of a row, if the rows are numbered from `start` on. -/
theorem find?_flatMap_rows_from {F : Record → Failures} {list message : String}
    {rows : List Record} {start : Nat} :
    Table.find? ((rows.zipIdx start).flatMap fun x ↦ (F x.1).under (rowFront list x.2)) path =
        some message ↔
      ∃ (i : Nat) (row : Record) (rest : String), rows[i]? = some row ∧
        path = rowFront list (start + i) ++ rest ∧ Table.find? (F row) rest = some message := by
  induction rows generalizing start with
  | nil => simp
  | cons row rows ih =>
    rw [List.zipIdx_cons, List.flatMap_cons, Table.find?_append, Option.or_eq_some_iff, ih]
    constructor
    · rintro (hfind | ⟨-, i, row', rest, hrow, hpath, hfind⟩)
      · obtain ⟨rest, rfl⟩ := Failures.exists_of_find?_under hfind
        rw [Failures.find?_under] at hfind
        exact ⟨0, row, rest, rfl, rfl, hfind⟩
      · refine ⟨i + 1, row', rest, hrow, ?_, hfind⟩
        rwa [Nat.add_right_comm, Nat.add_assoc] at hpath
    · rintro ⟨_ | i, row', rest, hrow, rfl, hfind⟩
      · obtain rfl : row = row' := by simpa using hrow
        exact .inl ((Failures.find?_under ..).trans hfind)
      · have hrow : rows[i]? = some row' := by simpa using hrow
        refine .inr ⟨?_, i, row', rest, hrow, ?_, hfind⟩
        · -- the row of the head has another number, so it has no such path
          by_contra hsome
          obtain ⟨other, hother⟩ := Option.ne_none_iff_exists'.1 hsome
          obtain ⟨rest', hrest⟩ := Failures.exists_of_find?_under hother
          have := rowFront_append_inj hrest
          omega
        · rw [Nat.add_right_comm, Nat.add_assoc]

/-- **What is found at a path of a row** is what is found in that row. -/
theorem find?_flatMap_rows {F : Record → Failures} {list message : String} {rows : List Record} :
    Table.find? (rows.zipIdx.flatMap fun x ↦ (F x.1).under (rowFront list x.2)) path =
        some message ↔
      ∃ (i : Nat) (row : Record) (rest : String), rows[i]? = some row ∧
        path = rowFront list i ++ rest ∧ Table.find? (F row) rest = some message := by
  refine find?_flatMap_rows_from.trans ?_
  simp only [Nat.zero_add]

/-! ## Lists as forms -/

/-- A list of records that need not be there and may have any number of rows has no failures of its
own. -/
theorem Declaration.ownFailures_of_rows {d : Declaration} {rows : List Record}
    (hkind : d.kind = .list) (hmin : d.minItems = none) (hmax : d.maxItems = none) :
    d.ownFailures m (some (.list (rows.map .record))) false scope = [] := by
  rw [ownFailures, if_pos hkind, rowsOf?_eq_some_iff.2 (.inl rfl)]
  simp [rowCountFailures, hmin, hmax]

/-- **The failures of a list** are those of the form of its columns on every row. -/
theorem failuresAmong_list {list : Field} {rows : List Record} (hkind : list.kind = .list)
    (hvisible : list.isVisible values = true) (hrequired : list.isRequiredAt values = false)
    (hmin : list.minItems = none) (hmax : list.maxItems = none)
    (hrows : values.at? list.name = some (.list (rows.map .record)))
    (hordered : ∀ row ∈ rows, Table.Ordered row)
    (hundefined : ∀ cell ∈ cellsOf list.columns, values.at? cell.name = none) :
    failuresAmong m id values values [list] = rows.zipIdx.flatMap fun x ↦
      (failuresAmong m id (values.overlay x.1) (values.overlay x.1) list.columns).under
        (rowFront list.name x.2) := by
  obtain ⟨list, columns⟩ := list
  have hgroup : list.kind ≠ .group := fun h ↦ by simp [hkind] at h
  have hrowsIn : list.rowsIn (some (.list (rows.map .record))) = rows := by
    rw [Declaration.rowsIn, if_pos hkind, rowsOf?_eq_some_iff.2 (.inl rfl), Option.getD_some]
  rw [failuresAmong, failuresAmong, List.append_nil, Field.failuresAmong, hvisible, Bool.not_true,
    if_neg Bool.false_ne_true, if_neg hgroup, Declaration.failuresAt_eq, hrows, hrequired,
    Declaration.ownFailures_of_rows hkind hmin hmax, hrowsIn, List.map_nil, List.nil_append]
  refine List.flatMap_congr fun x hx ↦ ?_
  obtain ⟨row, i⟩ := x
  have hrow : row ∈ rows := List.mem_of_getElem? (List.mk_mem_zipIdx_iff_getElem?.1 hx)
  dsimp only
  rw [rowFailures_eq]
  refine (failuresAmong_under (rowFront list.name i) columns id row _).trans ?_
  congr 1
  refine failuresAmong_congr columns fun cell hcell ↦ ?_
  exact (Record.at?_overlay_of_eq_none (hordered row hrow) (hundefined cell hcell)).symm

namespace Schema

/-- **Validating a list is validating the form of its columns on every row.** -/
theorem validate_rows {s c : Schema} {list : Field} {rows : List Record} (hs : s.fields = [list])
    (hc : c.fields = list.columns) (hkind : list.kind = .list)
    (hvisible : list.isVisible values = true) (hrequired : list.isRequiredAt values = false)
    (hmin : list.minItems = none) (hmax : list.maxItems = none)
    (hrows : values.at? list.name = some (.list (rows.map .record)))
    (hordered : ∀ row ∈ rows, Table.Ordered row)
    (hundefined : ∀ cell ∈ cellsOf list.columns, values.at? cell.name = none) (m : Criteria) :
    (s.validate m values = .valid values ↔
      ∀ row ∈ rows, c.validate m (values.overlay row) = .valid (values.overlay row)) ∧
    ∀ path message, (s.validate m values).messageAt? path = some message ↔
      ∃ (i : Nat) (row : Record) (rest : String), rows[i]? = some row ∧
        path = list.name ++ "." ++ toString i ++ "." ++ rest ∧
        (c.validate m (values.overlay row)).messageAt? rest = some message := by
  have hlist := failuresAmong_list (m := m) hkind hvisible hrequired hmin hmax hrows hordered
    hundefined
  constructor
  · simp only [validate_eq_valid_iff, hs, hc, hlist, List.flatMap_eq_nil_iff]
    constructor
    · intro h row hrow
      obtain ⟨i, hi⟩ := List.mem_iff_getElem?.1 hrow
      exact List.map_eq_nil_iff.1 (h (row, i) (List.mk_mem_zipIdx_iff_getElem?.2 hi))
    · rintro h ⟨row, i⟩ hrow
      have hrow : row ∈ rows := List.mem_of_getElem? (List.mk_mem_zipIdx_iff_getElem?.1 hrow)
      rw [h row hrow]
      rfl
  · intro path message
    rw [messageAt?_validate, hs, hlist]
    simp only [messageAt?_validate, hc]
    exact find?_flatMap_rows
      (F := fun row ↦ failuresAmong m id (values.overlay row) (values.overlay row) list.columns)

/-- Parcels with a weight and, in a group, a receiver. -/
def parcels : Field where
  name := "parcels"
  component := "list"
  columns := [{ name := "weight", component := "number" },
    { name := "address", component := "group",
      columns := [{ name := "receiver", component := "input", rules := [.required] }] }]

/-- A parcel for nobody fails where the form of its columns does. -/
theorem parcels_fail_at_receiver :
    ((⟨[parcels], []⟩ : Schema).validate {}
      [("parcels", .list [.record [("receiver", .text "Ada")], .record [("weight", .integer 2)]]),
        ("sender", .text "Bo")]).messageAt? "parcels.1.receiver" = some "receiver is required" := by
  let rows : List Record := [[("receiver", .text "Ada")], [("weight", .integer 2)]]
  have hrows : Record.at? [("parcels", .list (rows.map .record)), ("sender", .text "Bo")]
      parcels.name = some (.list (rows.map .record)) := rfl
  refine ((validate_rows (c := ⟨parcels.columns, []⟩) rfl rfl rfl rfl rfl rfl rfl hrows
    (by decide) (by decide) {}).2 _ _).2 ⟨1, [("weight", .integer 2)], "receiver", rfl, ?_, ?_⟩
  · decide
  · decide +kernel

end Schema

end ReactiveForm
