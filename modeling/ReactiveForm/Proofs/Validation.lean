import ReactiveForm.Proofs.Checks

/-!
# A validation reports the first fault at every path

What is wrong with the values of a form can be said without a word on how they are validated.  A
field is at *fault* (`Field.Fault`) if one of its checks fails, if it is a group with a field at
fault, or if it is a list of records with a column at fault in one of its rows.  The conditions and
validators of a column see the values of its row laid over those around it.  A field that is not
shown is never at fault, and neither is anything inside it.

A fault has a place in the schema: the numbers of the fields, rows and checks that lead to it, so
that the order of the schema is the order of these numbers.  `Schema.validate_reports` says that a
form is valid if and only if there is no fault, and that otherwise the paths with a message are
those of the faults, each with the message of its first one.

The validation finds fewer failures than there are faults, because the checks of a field stop at the
first one that fails.  `Reports` is what carries the proof: the failures are those of a list of all
faults, in the order of their places, as far as the first one at each path goes.
-/

set_option autoImplicit false
namespace ReactiveForm

/-! ## Places -/

/-- **Where a fault is**: the numbers of the steps that lead to it. -/
abbrev Place := List Nat

/-- Whether a place comes before another one. -/
def Place.Before (place other : Place) : Prop := List.Lex (· < ·) place other

theorem Place.Before.of_lt {i j : Nat} (h : i < j) (place other : Place) :
    Place.Before (i :: place) (j :: other) :=
  List.Lex.rel h

theorem Place.before_cons_iff {i : Nat} {place other : Place} :
    Place.Before (i :: place) (i :: other) ↔ place.Before other := by
  refine ⟨fun h ↦ ?_, List.Lex.cons⟩
  cases h with
  | cons h => exact h
  | rel h => exact absurd h (Nat.lt_irrefl i)

theorem Place.Before.asymm {place other : Place} (h : place.Before other) :
    ¬ other.Before place := by
  induction h with
  | nil => nofun
  | rel hlt =>
    intro hback
    cases hback with
    | cons _ => exact Nat.lt_irrefl _ hlt
    | rel hgt => exact Nat.lt_asymm hlt hgt
  | cons _ ih => exact fun hback ↦ ih (Place.before_cons_iff.1 hback)

/-! ## Faults -/

/-- **Some faults**: their places, their paths and what is said of them. -/
abbrev Faults := Place → String → String → Prop

/-- **The message of the first fault** at a path. -/
def Faults.IsFirst (F : Faults) (path message : String) : Prop :=
  ∃ place, F place path message ∧ ∀ other message', F other path message' → ¬ other.Before place

/-- The faults of some things, whose numbers come first. -/
def Faults.among {α : Type} (xs : List α) (F : α → Nat → Faults) : Faults :=
  fun place path message ↦
    ∃ i x rest, xs[i]? = some x ∧ place = i :: rest ∧ F x i rest path message

/-- The checks that are asked of a field; none if it is not shown. -/
def Declaration.checksIn (m : Criteria) (d : Declaration) (value : Option Value) (scope : Record) :
    List Check :=
  if d.isVisible scope then d.checks m value (d.isRequiredAt scope) scope else []

/-- **The faults of a field** whose value is read from `source`, among the values of a scope;
`locate` tells the path that belongs to a name. -/
inductive Field.Fault (m : Criteria) : Field → (String → String) → Record → Record → Faults
  /-- A check of the field fails. -/
  | check {f : Field} {locate : String → String} {source scope : Record} {k : Nat} {c : Check}
      (hkind : f.kind ≠ .group) (hc : (f.checksIn m (source.at? f.name) scope)[k]? = some c)
      (hfails : c.fails = true) :
      Fault m f locate source scope [0, k] (locate f.name) c.message
  /-- A field of a group that is shown is at fault. -/
  | inGroup {f : Field} {locate : String → String} {source scope : Record} {i : Nat}
      {column : Field} {place : Place} {path message : String}
      (hvisible : f.isVisible scope = true) (hkind : f.kind = .group)
      (hcolumn : f.columns[i]? = some column)
      (hfault : Fault m column locate source scope place path message) :
      Fault m f locate source scope (i :: place) path message
  /-- A column is at fault in a row of a list of records that is shown. -/
  | inRow {f : Field} {locate : String → String} {source scope : Record} {rows : List Record}
      {j : Nat} {row : Record} {i : Nat} {column : Field} {place : Place} {path message : String}
      (hvisible : f.isVisible scope = true) (hkind : f.kind = .list)
      (hrows : source.at? f.name = some (.list (rows.map .record))) (hrow : rows[j]? = some row)
      (hcolumn : f.columns[i]? = some column)
      (hfault : Fault m column (cellPath (locate f.name) j) row (scope.overlay row)
        place path message) :
      Fault m f locate source scope (1 :: j :: i :: place) path message

/-- **The faults of a form** among its values. -/
def Schema.Fault (s : Schema) (m : Criteria) (values : Record) : Faults :=
  Faults.among s.fields fun f _ ↦ f.Fault m id values values

/-- **In the order of their places**, the first fault at a path is the one that is found there. -/
theorem Faults.find?_eq_some_iff {faults : List (Place × String × String)} {path message : String}
    (hsorted : faults.Pairwise fun x y ↦ x.1.Before y.1) :
    Table.find? (faults.map (·.2)) path = some message ↔
      IsFirst (fun place path message ↦ (place, path, message) ∈ faults) path message := by
  induction faults with
  | nil => simp [IsFirst]
  | cons x faults ih =>
    obtain ⟨place, path', message'⟩ := x
    obtain ⟨hbefore, hrest⟩ := List.pairwise_cons.1 hsorted
    rw [List.map_cons, Table.find?_cons]
    by_cases hpath : path = path'
    · subst hpath
      rw [if_pos rfl, Option.some_inj]
      constructor
      · rintro rfl
        refine ⟨place, List.mem_cons_self, fun other message'' hother hlt ↦ ?_⟩
        rcases List.mem_cons.1 hother with heq | hother
        · cases heq
          exact hlt.asymm hlt
        · exact (hbefore _ hother).asymm hlt
      · rintro ⟨first, hfirst, hleast⟩
        rcases List.mem_cons.1 hfirst with heq | hfirst
        · cases heq
          rfl
        · exact absurd (hbefore _ hfirst) (hleast place message' List.mem_cons_self)
    · have hskip : ∀ other message'',
          (other, path, message'') ∈ (place, path', message') :: faults ↔
            (other, path, message'') ∈ faults := by
        intro other message''
        simp [hpath]
      rw [if_neg hpath, ih hrest]
      simp only [IsFirst, hskip]

/-! ## Failures of one path -/

section

variable {path other : String}

/-- Of the messages of one path the first one is found, and only there. -/
theorem Failures.find?_map_path (found : List String) :
    Table.find? (found.map (path, ·)) other = if other = path then found.head? else none := by
  cases found with
  | nil => rw [List.map_nil, Table.find?_nil, List.head?_nil, ite_self]
  | cons message found =>
    by_cases hpath : other = path
    · rw [List.map_cons, Table.find?_cons, if_pos hpath, if_pos hpath, List.head?_cons]
    · rw [if_neg hpath, Table.find?_eq_none_iff]
      intro hmem
      obtain ⟨e, he, rfl⟩ := List.mem_map.1 hmem
      obtain ⟨_, -, rfl⟩ := List.mem_map.1 he
      exact hpath rfl

/-- Of the checks of one path the first one that fails is found, and only there. -/
theorem Failures.find?_flatMap_checks (checks : List Check) :
    Table.find? (checks.flatMap fun c ↦ if c.fails then [(path, c.message)] else []) other =
      if other = path then firstFailure? checks else none := by
  induction checks with
  | nil => exact (ite_self _).symm
  | cons c checks ih =>
    rw [List.flatMap_cons, Table.find?_append, ih, firstFailure?_cons]
    cases hfails : c.fails with
    | false => simp
    | true => by_cases hpath : other = path <;> simp [hpath, Table.find?_cons]

end

/-! ## Reporting faults -/

/-- **Some failures report some faults**: at each path the first failure is that of the first
fault. -/
def Reports (failures : Failures) (F : Faults) : Prop :=
  ∃ faults : List (Place × String × String),
    faults.Pairwise (fun x y ↦ x.1.Before y.1) ∧
    (∀ place path message, (place, path, message) ∈ faults ↔ F place path message) ∧
    ∀ path, Table.find? failures path = Table.find? (faults.map (·.2)) path

namespace Reports

variable {failures more : Failures} {F G : Faults} {path message : String}

theorem congr (h : Reports failures F)
    (hfaults : ∀ place path message, F place path message ↔ G place path message) :
    Reports failures G := by
  obtain ⟨faults, hsorted, hmem, hfind⟩ := h
  exact ⟨faults, hsorted, fun place path message ↦ (hmem ..).trans (hfaults ..), hfind⟩

theorem nil (h : ∀ place path message, ¬ F place path message) : Reports [] F :=
  ⟨[], .nil, fun place path message ↦ by simpa using h place path message, fun _ ↦ rfl⟩

theorem append (hfirst : Reports failures F) (hsecond : Reports more G)
    (hbefore : ∀ place path message, F place path message → ∀ other path' message',
      G other path' message' → place.Before other) :
    Reports (failures ++ more) fun place path message ↦
      F place path message ∨ G place path message := by
  obtain ⟨faults, hsorted, hmem, hfind⟩ := hfirst
  obtain ⟨faults', hsorted', hmem', hfind'⟩ := hsecond
  refine ⟨faults ++ faults', ?_, ?_, ?_⟩
  · refine List.pairwise_append.2 ⟨hsorted, hsorted', ?_⟩
    rintro ⟨place, path, message⟩ hx ⟨other, path', message'⟩ hy
    exact hbefore place path message ((hmem ..).1 hx) other path' message' ((hmem' ..).1 hy)
  · intro place path message
    rw [List.mem_append, hmem, hmem']
  · intro path
    rw [List.map_append, Table.find?_append, Table.find?_append, hfind, hfind']

/-- Faults one step below. -/
theorem under (h : Reports failures F) (i : Nat) :
    Reports failures fun place path message ↦ ∃ rest, place = i :: rest ∧ F rest path message := by
  obtain ⟨faults, hsorted, hmem, hfind⟩ := h
  refine ⟨faults.map fun x ↦ (i :: x.1, x.2), ?_, ?_, ?_⟩
  · refine List.pairwise_map.2 (hsorted.imp fun h ↦ ?_)
    exact Place.before_cons_iff.2 h
  · intro place path message
    simp only [List.mem_map, Prod.mk.injEq, Prod.exists]
    constructor
    · rintro ⟨rest, _, _, hx, rfl, rfl, rfl⟩
      exact ⟨rest, rfl, (hmem ..).1 hx⟩
    · rintro ⟨rest, rfl, hrest⟩
      exact ⟨rest, path, message, (hmem ..).2 hrest, rfl, rfl, rfl⟩
  · intro path
    rw [hfind, List.map_map]
    rfl

/-- The faults of some things that are numbered from `start` on. -/
theorem flatMap_from {α : Type} {g : α × Nat → Failures} {F : α → Nat → Faults} :
    ∀ (xs : List α) (start : Nat), (∀ x ∈ xs, ∀ i, Reports (g (x, i)) (F x i)) →
      Reports ((xs.zipIdx start).flatMap g) fun place path message ↦
        ∃ i x rest, xs[i]? = some x ∧ place = (start + i) :: rest ∧
          F x (start + i) rest path message
  | [], _, _ => nil fun place path message ⟨i, x, rest, hx, _⟩ ↦ by simp at hx
  | x :: xs, start, h => by
    rw [List.zipIdx_cons, List.flatMap_cons]
    have hhead := (h x List.mem_cons_self start).under start
    have htail := flatMap_from xs (start + 1) fun y hy ↦ h y (List.mem_cons_of_mem x hy)
    -- the head has the smaller number, so its faults come before those of the tail
    refine (hhead.append htail ?_).congr ?_
    · rintro _ path message ⟨rest, rfl, -⟩ _ path' message' ⟨i, y, rest', -, rfl, -⟩
      exact .of_lt (by omega) rest rest'
    · intro place path message
      constructor
      · rintro (⟨rest, rfl, hrest⟩ | ⟨i, y, rest, hy, rfl, hrest⟩)
        · exact ⟨0, x, rest, rfl, rfl, hrest⟩
        · refine ⟨i + 1, y, rest, hy, ?_, ?_⟩
          · rw [Nat.add_right_comm, Nat.add_assoc]
          · rwa [Nat.add_right_comm, Nat.add_assoc] at hrest
      · rintro ⟨_ | i, y, rest, hy, rfl, hrest⟩
        · obtain rfl : x = y := by simpa using hy
          exact .inl ⟨rest, rfl, hrest⟩
        · refine .inr ⟨i, y, rest, hy, ?_, ?_⟩
          · rw [Nat.add_right_comm, Nat.add_assoc]
          · rwa [Nat.add_right_comm, Nat.add_assoc]

theorem among {α : Type} {xs : List α} {g : α × Nat → Failures} {F : α → Nat → Faults}
    (h : ∀ x ∈ xs, ∀ i, Reports (g (x, i)) (F x i)) :
    Reports (xs.zipIdx.flatMap g) (Faults.among xs F) := by
  refine (flatMap_from xs 0 h).congr fun place path message ↦ ?_
  simp only [Nat.zero_add, Faults.among]

/-- Only the first failure at each path matters. -/
theorem of_find?_eq (h : Reports failures F)
    (hfind : ∀ path, Table.find? more path = Table.find? failures path) : Reports more F := by
  obtain ⟨faults, hsorted, hmem, hfound⟩ := h
  exact ⟨faults, hsorted, hmem, fun path ↦ (hfind path).trans (hfound path)⟩

theorem check (c : Check) (path : String) :
    Reports (if c.fails then [(path, c.message)] else []) fun place path' message ↦
      c.fails = true ∧ place = [] ∧ path' = path ∧ message = c.message := by
  cases hfails : c.fails with
  | false => exact nil fun place path' message h ↦ absurd h.1 Bool.false_ne_true
  | true =>
    refine ⟨[([], path, c.message)], List.pairwise_singleton .., fun place path' message ↦ ?_,
      fun _ ↦ rfl⟩
    simp

/-- The checks of a field at a path, of which only the first one that fails is found. -/
theorem checks {found : List String} {checks : List Check} {path : String}
    (h : found.head? = firstFailure? checks) :
    Reports (found.map (path, ·)) (Faults.among checks fun c _ place path' message ↦
      c.fails = true ∧ place = [] ∧ path' = path ∧ message = c.message) := by
  let failures (c : Check) : Failures := if c.fails then [(path, c.message)] else []
  have hall : Reports (checks.zipIdx.flatMap fun x ↦ failures x.1) _ :=
    among fun c _ _ ↦ check c path
  rw [← List.flatMap_map Prod.fst failures, List.zipIdx_map_fst] at hall
  refine hall.of_find?_eq fun other ↦ ?_
  rw [Failures.find?_map_path, Failures.find?_flatMap_checks, h]

/-- **What is found at a path** is the message of the first fault there. -/
theorem find?_eq_some_iff (h : Reports failures F) :
    Table.find? failures path = some message ↔ F.IsFirst path message := by
  obtain ⟨faults, hsorted, hmem, hfind⟩ := h
  rw [hfind, Faults.find?_eq_some_iff hsorted]
  simp only [Faults.IsFirst, hmem]

theorem mem_names_iff (h : Reports failures F) :
    path ∈ Table.names failures ↔ ∃ place message, F place path message := by
  obtain ⟨faults, -, hmem, hfind⟩ := h
  rw [← Table.has_iff_mem_names, Table.has, hfind, ← Table.has, Table.has_iff_mem_names]
  simp [Table.names, hmem]

theorem eq_nil_iff (h : Reports failures F) :
    failures = [] ↔ ∀ place path message, ¬ F place path message := by
  have hnames : failures = [] ↔ ∀ path, path ∉ Table.names failures := by
    rw [← List.eq_nil_iff_forall_not_mem, Table.names, List.map_eq_nil_iff]
  rw [hnames]
  simp only [h.mem_names_iff, not_exists]
  exact forall_comm

end Reports

/-! ## The faults of fields -/

variable {m : Criteria} {d : Declaration} {columns : List Field} {locate : String → String}
  {source scope : Record}

theorem failuresAmong_eq_flatMap (fs : List Field) :
    failuresAmong m locate source scope fs =
      fs.zipIdx.flatMap fun (f, _) ↦ f.failuresAmong m locate source scope := by
  have hfrom : ∀ start : Nat, failuresAmong m locate source scope fs =
      (fs.zipIdx start).flatMap fun (f, _) ↦ f.failuresAmong m locate source scope := by
    induction fs with
    | nil =>
      intro start
      rw [failuresAmong, List.zipIdx_nil, List.flatMap_nil]
    | cons f fs ih =>
      intro start
      rw [failuresAmong, List.zipIdx_cons, List.flatMap_cons, ← ih]
  exact hfrom 0

/-- A field that is not shown is not at fault. -/
theorem Field.not_fault {f : Field} (h : f.isVisible scope = false) (place : Place)
    (path message : String) : ¬ f.Fault m locate source scope place path message := by
  intro hfault
  cases hfault with
  | check _ hc _ => simp [Declaration.checksIn, h] at hc
  | inGroup hvisible => simp [h] at hvisible
  | inRow hvisible => simp [h] at hvisible

/-- The faults of a group that is shown. -/
theorem Field.fault_group_iff {f : Field} (hvisible : f.isVisible scope = true)
    (hkind : f.kind = .group) (place : Place) (path message : String) :
    Faults.among f.columns (fun column _ ↦ column.Fault m locate source scope) place path message ↔
      f.Fault m locate source scope place path message := by
  constructor
  · rintro ⟨i, column, rest, hcolumn, rfl, hfault⟩
    exact .inGroup hvisible hkind hcolumn hfault
  · intro hfault
    cases hfault with
    | check hgroup => exact absurd hkind hgroup
    | inGroup _ _ hcolumn hfault => exact ⟨_, _, _, hcolumn, rfl, hfault⟩
    | inRow _ hlist => simp [hkind] at hlist

/-- The faults of a field that is shown and is no group: first those of its checks, then those in
the rows of a list. -/
theorem Field.fault_iff {f : Field} (hvisible : f.isVisible scope = true)
    (hkind : f.kind ≠ .group) (place : Place) (path message : String) :
    ((∃ rest, place = 0 :: rest ∧
        Faults.among (f.checks m (source.at? f.name) (f.isRequiredAt scope) scope)
          (fun c _ place path message ↦
            c.fails = true ∧ place = [] ∧ path = locate f.name ∧ message = c.message)
          rest path message) ∨
      ∃ rest, place = 1 :: rest ∧
        Faults.among (f.rowsIn (source.at? f.name))
          (fun row j ↦ Faults.among f.columns fun column _ ↦
            column.Fault m (cellPath (locate f.name) j) row (scope.overlay row))
          rest path message) ↔
      f.Fault m locate source scope place path message := by
  have hchecks : f.checksIn m (source.at? f.name) scope =
      f.checks m (source.at? f.name) (f.isRequiredAt scope) scope := by
    rw [Declaration.checksIn, if_pos hvisible]
  rw [← hchecks]
  constructor
  · rintro (⟨_, rfl, k, c, _, hc, rfl, hfails, rfl, rfl, rfl⟩ |
      ⟨_, rfl, j, row, _, hrow, rfl, i, column, rest, hcolumn, rfl, hfault⟩)
    · exact .check hkind hc hfails
    · obtain ⟨hlist, rows, hrows, hrow⟩ := Declaration.getElem?_rowsIn_eq_some_iff.1 hrow
      exact .inRow hvisible hlist hrows hrow hcolumn hfault
  · intro hfault
    cases hfault with
    | check _ hc hfails => exact .inl ⟨_, rfl, _, _, _, hc, rfl, hfails, rfl, rfl, rfl⟩
    | inGroup _ hgroup => exact absurd hgroup hkind
    | inRow _ hlist hrows hrow hcolumn hfault =>
      have hrow := Declaration.getElem?_rowsIn_eq_some_iff.2 ⟨hlist, _, hrows, hrow⟩
      exact .inr ⟨_, rfl, _, _, _, hrow, rfl, _, _, _, hcolumn, rfl, hfault⟩

mutual

/-- **The failures of a field report its faults.** -/
theorem Field.reports (m : Criteria) : ∀ (f : Field) (locate : String → String)
    (source scope : Record),
    Reports (f.failuresAmong m locate source scope) (f.Fault m locate source scope)
  | ⟨d, columns⟩, locate, source, scope => by
    rw [Field.failuresAmong]
    cases hvisible : d.isVisible scope with
    | false => exact .nil (Field.not_fault hvisible)
    | true =>
      rw [Bool.not_true, if_neg Bool.false_ne_true]
      have hcolumns : ∀ (locate : String → String) (source scope : Record),
          Reports (failuresAmong m locate source scope columns)
            (Faults.among columns fun column _ ↦ column.Fault m locate source scope) := by
        intro locate source scope
        rw [failuresAmong_eq_flatMap]
        exact .among fun column hcolumn _ ↦
          reports_columns m columns column hcolumn locate source scope
      by_cases hgroup : d.kind = .group
      · rw [if_pos hgroup]
        exact (hcolumns locate source scope).congr
          (Field.fault_group_iff (f := ⟨d, columns⟩) hvisible hgroup)
      · -- the places of the field's own faults begin with 0, those in its rows with 1
        rw [if_neg hgroup, Declaration.failuresAt_eq]
        have hown : Reports ((d.ownFailures m (source.at? d.name) (d.isRequiredAt scope)
            scope).map (locate d.name, ·)) _ := Reports.checks Declaration.head?_ownFailures
        have hrow : ∀ row ∈ d.rowsIn (source.at? d.name), ∀ j,
            Reports (rowFailures m columns (rowPath (locate d.name) j) row (scope.overlay row))
              (Faults.among columns fun column _ ↦
                column.Fault m (cellPath (locate d.name) j) row (scope.overlay row)) := by
          intro row _ j
          rw [rowFailures_eq]
          exact hcolumns _ row (scope.overlay row)
        refine ((hown.under 0).append ((Reports.among hrow).under 1) ?_).congr
          (Field.fault_iff (f := ⟨d, columns⟩) hvisible hgroup)
        rintro _ _ _ ⟨rest, rfl, -⟩ _ _ _ ⟨rest', rfl, -⟩
        exact .of_lt Nat.zero_lt_one rest rest'

theorem reports_columns (m : Criteria) : ∀ fs : List Field, ∀ f ∈ fs,
    ∀ (locate : String → String) (source scope : Record),
      Reports (f.failuresAmong m locate source scope) (f.Fault m locate source scope)
  | [] => nofun
  | f :: fs => List.forall_mem_cons.2 ⟨f.reports m, reports_columns m fs⟩

end

/-! ## The faults of forms -/

namespace Schema

variable {values : Record}

theorem reports (s : Schema) (m : Criteria) (values : Record) :
    Reports (failuresAmong m id values values s.fields) (s.Fault m values) := by
  rw [failuresAmong_eq_flatMap]
  exact .among fun f _ _ ↦ f.reports m id values values

/-- **A validation reports exactly the faults of a form.**  The values are valid if and only if
there is no fault.  Otherwise there is a message at each path of a fault and at no other, and it is
that of the first fault there, in the order of the schema, its rows and its checks.

This holds whatever decides that a text matches a pattern, is an email address or is a URL: the
criteria bring these tests along, and the faults of a rule are said in terms of the same ones
(`Rule.BrokenByText`). -/
theorem validate_reports (s : Schema) (m : Criteria) (values : Record) :
    (s.validate m values = .valid values ↔
      ∀ place path message, ¬ s.Fault m values place path message) ∧
    ((∃ place path message, s.Fault m values place path message) →
      ∃ messages : Table String, s.validate m values = .invalid messages ∧ messages.Ordered ∧
        (∀ path, path ∈ messages.names ↔ ∃ place message, s.Fault m values place path message) ∧
        ∀ path message, messages.find? path = some message ↔
          (s.Fault m values).IsFirst path message) := by
  have hreports := s.reports m values
  refine ⟨validate_eq_valid_iff.trans hreports.eq_nil_iff, ?_⟩
  rintro ⟨place, path, message, hfault⟩
  have hfailures : failuresAmong m id values values s.fields ≠ [] := fun h ↦
    hreports.eq_nil_iff.1 h place path message hfault
  refine ⟨Table.ofFirst (failuresAmong m id values values s.fields), ?_, .ofFirst _, ?_, ?_⟩
  · rw [validate_eq]
    split
    · exact absurd ‹_› hfailures
    · rfl
  · intro path
    rw [← Table.has_iff_mem_names, Table.has, Table.find?_ofFirst, ← Table.has,
      Table.has_iff_mem_names, hreports.mem_names_iff]
  · intro path message
    rw [Table.find?_ofFirst, hreports.find?_eq_some_iff]

/-- How much of an item is ordered, which must be at least one. -/
def quantity : Field where
  name := "qty"
  component := "number"
  rules := [{ kind := .min, argument := some (.integer 1), message := some "too few" }]

/-- A group with a list of items. -/
def basketSchema : Schema where
  fields := [{ name := "note", component := "input" },
    { name := "basket", component := "group",
      columns := [{ name := "items", component := "list", columns := [quantity] }] }]
  computeOrder := []

/-- An item that is not ordered at all is at fault in its own row, and is reported there. -/
theorem basketSchema_reports_qty :
    ∃ messages : Table String, basketSchema.validate {}
        [("items", .list [.record [("qty", .integer 2)], .record [("qty", .integer 0)]])] =
          .invalid messages ∧ "items.1.qty" ∈ messages.names := by
  let rows : List Record := [[("qty", .integer 2)], [("qty", .integer 0)]]
  let values : Record := [("items", .list (rows.map .record))]
  have hquantity : quantity.Fault {} (cellPath "items" 1) [("qty", .integer 0)]
      (values.overlay [("qty", .integer 0)]) [0, 2] "items.1.qty" "too few" :=
    .check (c := ⟨true, "too few"⟩) (by decide) (by decide +kernel) rfl
  have hrows : values.at? "items" = some (.list (rows.map .record)) := rfl
  have hfault : basketSchema.Fault {} values [1, 0, 1, 1, 0, 0, 2] "items.1.qty" "too few" := by
    refine ⟨1, _, _, rfl, rfl, .inGroup (i := 0) rfl rfl rfl ?_⟩
    exact .inRow rfl rfl hrows rfl rfl hquantity
  obtain ⟨messages, hmessages, -, hnames, -⟩ :=
    (basketSchema.validate_reports {} values).2 ⟨_, _, _, hfault⟩
  exact ⟨messages, hmessages, (hnames _).2 ⟨_, _, hfault⟩⟩

end Schema

end ReactiveForm
