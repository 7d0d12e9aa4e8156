import Mathlib.Data.List.Induction
import Mathlib.Data.List.Pairwise
import ReactiveForm.Form.Submission
import ReactiveForm.Proofs.Write

/-!
# What a form submits

What a form submits is said by its fields, one by one.  `Submits` is that law: a field with a value
has it in what is submitted, of a list the columns of each row by the same law, and all of it as the
host changes it; a field without a value has none; and nothing else is there.  It says nothing of
the order in which the fields are put in, nor of the records that are made on the way.

The law can only hold of fields whose names lie apart, so that none of them is put where another one
is or inside it (`SubmitsApart`).  `Schema.submission_submits` says that then it does.

A value is put in at the end of a way through records, which are made where there are none.  As long
as the ways lie apart nothing but a record is ever met on a way, so nothing gives way to one: that
is the invariant `Record.Nests`, which says of a record that it has the entries put in so far and
only records besides.  Ways of records are told apart by names alone; that a list would take two
words for one row number does not matter here, where `Record.Apart` would have to ask for more.
-/

set_option autoImplicit false
namespace ReactiveForm

/-! ## Ways that lie apart -/

/-- **Paths of which neither lies inside the other one**, nor in its place. -/
def Separate (path other : String) : Prop :=
  ¬ Record.Inside path other ∧ ¬ Record.Inside other path

instance (path other : String) : Decidable (Separate path other) :=
  inferInstanceAs (Decidable (¬ segments other <+: segments path ∧
    ¬ segments path <+: segments other))

theorem Separate.symm {path other : String} (h : Separate path other) : Separate other path :=
  ⟨h.2, h.1⟩

namespace Record

variable {r : Record} {v : Value} {name : String} {path other : List String}

/-! ## Putting in a value -/

/-- What a record that is entered on a way holds: what its place held, if that was a record. -/
theorem descend?_fields {x : Option Value} (hpath : path ≠ [])
    (hx : ∀ w, x = some w → w.isRecord = true) :
    (Value.record (x.getD .null).fields).descend? path = x.bind (·.descend? path) := by
  cases x with
  | none =>
    cases path with
    | nil => exact absurd rfl hpath
    | cons a path => rfl
  | some w =>
    cases w with
    | record fields => rfl
    | _ => exact absurd (hx _ rfl) Bool.false_ne_true

/-- A way of more than one step goes through a record. -/
theorem nest_cons (hpath : path ≠ []) (name : String) (v : Value) (r : Record) :
    r.nest v (name :: path) =
      r.insert name (.record (nest v path ((r.find? name).getD .null).fields)) := by
  cases path with
  | nil => exact absurd rfl hpath
  | cons a path => rw [nest]; exact List.cons_ne_nil a path

/-- The last step of a way, or the first of several, changes one place only. -/
theorem exists_nest_eq_insert (r : Record) (v : Value) (name : String) (path : List String) :
    ∃ w, r.nest v (name :: path) = r.insert name w := by
  by_cases hpath : path = []
  · exact ⟨v, by rw [hpath, nest]⟩
  · exact ⟨_, nest_cons hpath name v r⟩

/-- Behind a first step that is shared is what was put there on the rest of the way. -/
theorem descend?_nest_cons (hpath : path ≠ []) :
    (Value.record (r.nest v (name :: path))).descend? (name :: other) =
      (Value.record (nest v path ((r.find? name).getD .null).fields)).descend? other := by
  rw [nest_cons hpath, Value.descend?, Value.child?, Table.find?_insert, if_pos rfl,
    Option.bind_some]

/-- Behind another first step nothing changes. -/
theorem descend?_nest_of_ne {step : String} (hne : step ≠ name) :
    (Value.record (r.nest v (name :: path))).descend? (step :: other) =
      (Value.record r).descend? (step :: other) := by
  obtain ⟨w, hinsert⟩ := exists_nest_eq_insert r v name path
  rw [hinsert, Value.descend?, Value.descend?, Value.child?, Value.child?, Table.find?_insert,
    if_neg hne]

/-- At the end of a way is what was put there. -/
theorem descend?_nest_self (hpath : path ≠ []) :
    (Value.record (r.nest v path)).descend? path = some v := by
  induction path generalizing r with
  | nil => exact absurd rfl hpath
  | cons a path ih =>
    by_cases hrest : path = []
    · simp [hrest, nest, Value.descend?, Value.child?, Table.find?_insert]
    · rw [descend?_nest_cons hrest, ih hrest]

/-- On the way there are records. -/
theorem descend?_nest_before {w : Value} (hother : other ≠ []) (hbefore : other <+: path)
    (hne : other ≠ path) (hw : (Value.record (r.nest v path)).descend? other = some w) :
    w.isRecord = true := by
  induction other generalizing path r with
  | nil => exact absurd rfl hother
  | cons a other ih =>
    obtain ⟨b, path, rfl⟩ := List.exists_cons_of_ne_nil (List.IsPrefix.ne_nil hbefore hother)
    obtain ⟨rfl, hbehind⟩ := List.cons_prefix_cons.1 hbefore
    have hne : other ≠ path := fun h ↦ hne (by rw [h])
    have hrest : path ≠ [] := by
      rintro rfl
      exact hne (List.prefix_nil.1 hbehind)
    rw [descend?_nest_cons hrest] at hw
    by_cases hend : other = []
    · rw [hend, Value.descend?, Option.some_inj] at hw
      rw [← hw, Value.isRecord]
    · exact ih hend hbehind hne hw

/-- **Beside a way nothing changes**, if only records are met on it. -/
theorem descend?_nest_of_separate (hpath : ¬ path <+: other) (hother : ¬ other <+: path)
    (hrecords : ∀ front w, front ≠ [] → front <+: path → front ≠ path →
      (Value.record r).descend? front = some w → w.isRecord = true) :
    (Value.record (r.nest v path)).descend? other = (Value.record r).descend? other := by
  induction path generalizing other r with
  | nil => exact absurd List.nil_prefix hpath
  | cons a path ih =>
    cases other with
    | nil => exact absurd List.nil_prefix hother
    | cons b other =>
      by_cases hab : b = a
      · subst hab
        have hpath : ¬ path <+: other := fun h ↦ hpath (List.cons_prefix_cons.2 ⟨rfl, h⟩)
        have hother : ¬ other <+: path := fun h ↦ hother (List.cons_prefix_cons.2 ⟨rfl, h⟩)
        have hrest : path ≠ [] := by
          rintro rfl
          exact hpath List.nil_prefix
        have hplace : ∀ w, Table.find? r b = some w → w.isRecord = true := by
          intro w hw
          refine hrecords [b] w (List.cons_ne_nil b []) ⟨path, rfl⟩ ?_ ?_
          · simpa using hrest.symm
          · rw [Value.descend?, Value.child?, hw, Option.bind_some, Value.descend?]
        -- inside the place of the first step the rests lie apart
        have hinside : ∀ rest : List String, rest ≠ [] →
            (Value.record ((Table.find? r b).getD .null).fields).descend? rest =
              (Value.record r).descend? (b :: rest) := by
          intro rest hne
          rw [descend?_fields hne hplace, Value.descend?, Value.child?]
        have hne : other ≠ [] := by
          rintro rfl
          exact hother List.nil_prefix
        rw [descend?_nest_cons hrest, ih hpath hother, hinside other hne]
        intro front w hfront hbefore hfrontne hw
        rw [hinside front hfront] at hw
        refine hrecords (b :: front) w (List.cons_ne_nil b front) ?_ ?_ hw
        · exact List.cons_prefix_cons.2 ⟨rfl, hbefore⟩
        · simpa using hfrontne
      · exact descend?_nest_of_ne hab

/-! ## Records that are put together -/

/-- **A record that has some entries at the ends of their ways**, and only records on the ways. -/
structure Nests (entries : List (String × Value)) (r : Record) : Prop where
  plain : r.Plain
  leaf : ∀ e ∈ entries, (Value.record r).descend? (segments e.1) = some e.2
  inner : ∀ path w, path ≠ [] → (Value.record r).descend? path = some w →
    (∃ e ∈ entries, segments e.1 <+: path) ∨
      w.isRecord = true ∧ ∃ e ∈ entries, path <+: segments e.1

namespace Nests

variable {entries : List (String × Value)} {e : String × Value}

theorem nil : Nests [] [] where
  plain := nofun
  leaf := nofun
  inner path w hpath hw := by
    cases path with
    | nil => exact absurd rfl hpath
    | cons a path => cases hw

theorem plain_nest (h : r.Plain) (name : String) (v : Value) :
    (r.nest v (segments name)).Plain := by
  obtain ⟨first, rest, hsegments⟩ := List.exists_cons_of_ne_nil (segments_ne_nil name)
  have hfirst : isDotted first = false :=
    isDotted_of_mem_segments (hsegments ▸ List.mem_cons_self)
  obtain ⟨w, hinsert⟩ := exists_nest_eq_insert r v first rest
  intro other hother
  rw [hsegments, hinsert, Table.mem_names_insert] at hother
  rcases hother with rfl | hother
  · exact hfirst
  · exact h other hother

/-- **One entry more**, which lies apart from all others. -/
theorem snoc (h : Nests entries r) (hseparate : ∀ e' ∈ entries, Separate e'.1 e.1) :
    Nests (entries ++ [e]) (r.nest e.2 (segments e.1)) := by
  have hrecords : ∀ front w, front ≠ [] → front <+: segments e.1 → front ≠ segments e.1 →
      (Value.record r).descend? front = some w → w.isRecord = true := by
    intro front w hfront hbefore _ hw
    rcases h.inner front w hfront hw with ⟨e', he', hbelow⟩ | ⟨hrecord, -⟩
    · exact absurd (hbelow.trans hbefore) (hseparate e' he').2
    · exact hrecord
  refine ⟨plain_nest h.plain e.1 e.2, ?_, ?_⟩
  · intro e' he'
    rcases List.mem_append.1 he' with he' | he'
    · obtain ⟨hover, hunder⟩ := hseparate e' he'
      rw [descend?_nest_of_separate hover hunder hrecords, h.leaf e' he']
    · rw [List.mem_singleton.1 he', descend?_nest_self (segments_ne_nil e.1)]
  · intro path w hpath hw
    by_cases hbelow : segments e.1 <+: path
    · exact .inl ⟨e, by simp, hbelow⟩
    by_cases hover : path <+: segments e.1
    · have hne : path ≠ segments e.1 := fun heq ↦ hbelow (heq ▸ List.prefix_rfl)
      exact .inr ⟨descend?_nest_before hpath hover hne hw, e, by simp, hover⟩
    · rw [descend?_nest_of_separate hbelow hover hrecords] at hw
      rcases h.inner path w hpath hw with ⟨e', he', hbefore⟩ | ⟨hrecord, e', he', hbefore⟩
      · exact .inl ⟨e', List.mem_append_left _ he', hbefore⟩
      · exact .inr ⟨hrecord, e', List.mem_append_left _ he', hbefore⟩

end Nests

/-- **Entries whose paths lie apart are all there**, and nothing else is. -/
theorem nests_nested {entries : List (String × Value)}
    (h : entries.Pairwise fun e e' ↦ Separate e.1 e'.1) : Nests entries (nested entries) := by
  induction entries using List.reverseRecOn with
  | nil => exact .nil
  | append_singleton entries e ih =>
    obtain ⟨hentries, -, hseparate⟩ := List.pairwise_append.1 h
    rw [nested, List.foldl_append, List.foldl_cons, List.foldl_nil, ← nested]
    exact (ih hentries).snoc fun e' he' ↦ hseparate e' he' e List.mem_cons_self

/-- In a record without dotted names a path is always descended. -/
theorem Plain.at?_eq_descend? (h : r.Plain) (path : String) :
    r.at? path = (Value.record r).descend? (segments path) := by
  cases hdotted : isDotted path with
  | false =>
    rw [at?_of_not_isDotted hdotted, segments_of_not_isDotted hdotted]
    simp [Value.descend?, Value.child?]
  | true => rw [at?, h.find?_eq_none hdotted]

end Record

/-! ## What each field submits -/

mutual

/-- The fields that are submitted of a field: itself, unless it is left out or a group. -/
def Field.submittedCells : Field → List Field
  | ⟨d, columns⟩ =>
    if d.noSubmit then []
    else if d.kind = .group then submittedCellsOf columns
    else [⟨d, columns⟩]

/-- **The fields that are submitted** of some fields: a group gives way to what is inside it, and a
field that is left out is left out with everything inside it. -/
def submittedCellsOf : List Field → List Field
  | [] => []
  | f :: fs => f.submittedCells ++ submittedCellsOf fs

end

/-- What the host makes of a value that is submitted. -/
def Declaration.transformed (d : Declaration) (v : Value) (snapshot : Record) : Value :=
  match d.transform with
  | some transform => transform v snapshot
  | none => v

/-- What a field submits of its value. -/
def Field.submittedValue (snapshot : Record) (f : Field) (v : Value) : Value :=
  f.transformed
    (match f.kind, v with
      | .list, .list rows => .list (rows.map fun
        | .record row => .record (nested (submittedOf snapshot row f.columns))
        | row => row)
      | _, v => v)
    snapshot

variable {snapshot source : Record} {fs : List Field} {f : Field}

mutual

theorem Field.submitted_eq : ∀ f : Field, f.submitted snapshot source =
    f.submittedCells.filterMap fun f ↦
      (source.at? f.name).map fun v ↦ (f.name, f.submittedValue snapshot v)
  | ⟨d, columns⟩ => by
    rw [Field.submitted, Field.submittedCells]
    split
    · rfl
    · split
      · exact submittedOf_eq columns
      · rw [List.filterMap_cons, List.filterMap_nil]
        cases source.at? d.name with
        | none => rfl
        | some v => rfl

/-- **What some fields submit** is what each of those that are submitted does. -/
theorem submittedOf_eq : ∀ fs : List Field, submittedOf snapshot source fs =
    (submittedCellsOf fs).filterMap fun f ↦
      (source.at? f.name).map fun v ↦ (f.name, f.submittedValue snapshot v)
  | [] => by rw [submittedOf, submittedCellsOf, List.filterMap_nil]
  | f :: fs => by
    rw [submittedOf, submittedCellsOf, List.filterMap_append, f.submitted_eq, submittedOf_eq fs]

end

/-! ## The law of submission -/

mutual

/-- **What some fields submit of a source**, which is the form or one of its rows, where `snapshot`
has the values of the whole form. -/
inductive Submits (snapshot : Record) : List Field → Record → Record → Prop
  | intro {fs : List Field} {source payload : Record}
      (defined : ∀ f ∈ submittedCellsOf fs, ∀ v, source.at? f.name = some v →
        SubmitsValue snapshot f v (payload.at? f.name))
      (undefined : ∀ f ∈ submittedCellsOf fs, source.at? f.name = none →
        payload.at? f.name = none)
      (others : ∀ path, payload.at? path ≠ none →
        ∃ f ∈ submittedCellsOf fs, source.at? f.name ≠ none ∧
          (Record.Inside path f.name ∨ Record.Inside f.name path)) :
      Submits snapshot fs source payload

/-- What a field with a value has in what is submitted. -/
inductive SubmitsValue (snapshot : Record) : Field → Value → Option Value → Prop
  /-- Of a list each row is submitted. -/
  | list {f : Field} {rows kept : List Value} (hkind : f.kind = .list)
      (hlength : kept.length = rows.length)
      (hrows : ∀ (i : Nat) (row row' : Value), rows[i]? = some row → kept[i]? = some row' →
        SubmitsRow snapshot f.columns row row') :
      SubmitsValue snapshot f (.list rows) (some (f.transformed (.list kept) snapshot))
  /-- Any other value is submitted as it is. -/
  | other {f : Field} {v : Value} (h : f.kind = .list → ∀ rows, v ≠ .list rows) :
      SubmitsValue snapshot f v (some (f.transformed v snapshot))

/-- What is submitted of a row of a list with some columns. -/
inductive SubmitsRow (snapshot : Record) : List Field → Value → Value → Prop
  /-- Of a record its columns are submitted. -/
  | record {columns : List Field} {row kept : Record} (h : Submits snapshot columns row kept) :
      SubmitsRow snapshot columns (.record row) (.record kept)
  /-- What is no record is submitted as it is. -/
  | other {columns : List Field} {row : Value} (h : row.isRecord = false) :
      SubmitsRow snapshot columns row row

end

/-- **Fields that are submitted under names that lie apart**, and so are the columns of their
lists. -/
inductive SubmitsApart : List Field → Prop
  | intro {fs : List Field}
      (hnames : (submittedCellsOf fs).Pairwise fun f g ↦ Separate f.name g.name)
      (hlists : ∀ f ∈ submittedCellsOf fs, f.kind = .list → SubmitsApart f.columns) :
      SubmitsApart fs

/-- What is submitted of a value, if the law holds of the columns of a list. -/
theorem submitsValue_submittedValue (snapshot : Record) (v : Value)
    (hcolumns : f.kind = .list → ∀ row,
      Submits snapshot f.columns row (nested (submittedOf snapshot row f.columns))) :
    SubmitsValue snapshot f v (some (f.submittedValue snapshot v)) := by
  by_cases hrows : f.kind = .list ∧ ∃ rows, v = .list rows
  · obtain ⟨hkind, rows, rfl⟩ := hrows
    simp only [Field.submittedValue, hkind]
    refine .list hkind (List.length_map _) fun i row row' hrow hrow' ↦ ?_
    rw [List.getElem?_map, hrow, Option.map_some, Option.some_inj] at hrow'
    subst hrow'
    cases row with
    | record row => exact .record (hcolumns hkind row)
    | _ => exact .other rfl
  · have hsame : f.submittedValue snapshot v = f.transformed v snapshot := by
      rw [Field.submittedValue]
      exact fun rows hkind hv ↦ hrows ⟨hkind, rows, hv⟩
    rw [hsame]
    exact .other fun hkind rows hv ↦ hrows ⟨hkind, rows, hv⟩

/-- **What fields submit whose names lie apart** is what the law says. -/
theorem SubmitsApart.submits (h : SubmitsApart fs) (snapshot source : Record) :
    Submits snapshot fs source (nested (submittedOf snapshot source fs)) := by
  induction h generalizing source with
  | @intro fs hnames _ ih =>
    have hentries : (submittedOf snapshot source fs).Pairwise
        fun e e' ↦ Separate e.1 e'.1 := by
      rw [submittedOf_eq]
      refine List.Pairwise.filterMap _ (fun f g hfg e he e' he' ↦ ?_) hnames
      obtain ⟨_, -, rfl⟩ := Option.map_eq_some_iff.1 he
      obtain ⟨_, -, rfl⟩ := Option.map_eq_some_iff.1 he'
      exact hfg
    have hnests := Record.nests_nested hentries
    have hmem : ∀ e, e ∈ submittedOf snapshot source fs ↔ ∃ f ∈ submittedCellsOf fs,
        ∃ v, source.at? f.name = some v ∧ (f.name, f.submittedValue snapshot v) = e := by
      intro e
      simp only [submittedOf_eq, List.mem_filterMap, Option.map_eq_some_iff]
    have hothers : ∀ path, (nested (submittedOf snapshot source fs)).at? path ≠ none →
        ∃ f ∈ submittedCellsOf fs, source.at? f.name ≠ none ∧
          (Record.Inside path f.name ∨ Record.Inside f.name path) := by
      intro path hpath
      obtain ⟨w, hw⟩ := Option.ne_none_iff_exists'.1 hpath
      rw [hnests.plain.at?_eq_descend?] at hw
      have hplace : ∃ e ∈ submittedOf snapshot source fs,
          Record.Inside path e.1 ∨ Record.Inside e.1 path := by
        rcases hnests.inner _ w (segments_ne_nil path) hw with ⟨e, he, h⟩ | ⟨-, e, he, h⟩
        · exact ⟨e, he, .inl h⟩
        · exact ⟨e, he, .inr h⟩
      obtain ⟨e, he, hinside⟩ := hplace
      obtain ⟨f, hf, v, hv, rfl⟩ := (hmem e).1 he
      exact ⟨f, hf, by rw [hv]; exact Option.some_ne_none v, hinside⟩
    refine .intro (fun f hf v hv ↦ ?_) (fun f hf hundefined ↦ ?_) hothers
    · have hleaf := hnests.leaf _ ((hmem _).2 ⟨f, hf, v, hv, rfl⟩)
      rw [hnests.plain.at?_eq_descend?, hleaf]
      exact submitsValue_submittedValue snapshot v fun hkind row ↦ ih f hf hkind row
    · by_contra hdefined
      obtain ⟨g, hg, hsome, hinside⟩ := hothers f.name hdefined
      have hne : f ≠ g := by
        rintro rfl
        exact hsome hundefined
      have hsymm : Std.Symm fun f g : Field ↦ Separate f.name g.name := ⟨fun _ _ h ↦ h.symm⟩
      obtain ⟨hover, hunder⟩ := hnames.forall hf hg hne
      exact hinside.elim hover hunder

namespace Schema

/-- **What a form submits is exactly what its fields submit**, if their names lie apart: of each
field its value, of a list the columns of each row, as the host changes it, and nothing else. -/
theorem submission_submits {s : Schema} (h : SubmitsApart s.fields) (values : Record) :
    Submits values s.fields values (s.submission values) :=
  h.submits values values

/-- The lines of an order, of which the note is not submitted. -/
def orderLines : Field where
  name := "lines"
  component := "list"
  columns := [{ name := "item.sku", component := "input" },
    { name := "item.qty", component := "number" },
    { name := "item", component := "textarea", noSubmit := true }]

/-- The address that an order is confirmed to, which gives way to an alias. -/
def orderAddress : Field where
  name := "customer.email"
  component := "email"
  transform := some fun _ values ↦ (values.at? "alias").getD .null

/-- An order, with something that is kept for the house. -/
def orderForm : Schema where
  fields := [{ name := "customer.name", component := "input" },
    { name := "contact", component := "group", columns := [orderAddress] },
    { name := "house", component := "group", noSubmit := true,
      columns := [{ name := "customer", component := "input" }] },
    orderLines]
  computeOrder := []

/-- What is left out of an order may have any name. -/
theorem orderForm_submits :
    let values : Record := [("alias", .text "ada"),
      ("customer", .record [("email", .text "ada@example.org"), ("rank", .integer 1)]),
      ("lines", .list [.record [("item", .record [("sku", .text "A1"), ("price", .integer 9)])]])]
    SubmitsApart orderForm.fields ∧
      Submits values orderForm.fields values (orderForm.submission values) := by
  intro values
  have hlines : SubmitsApart orderLines.columns := by
    refine .intro (by decide +kernel) fun f hf hkind ↦ ?_
    have hnone : ∀ f ∈ submittedCellsOf orderLines.columns, f.kind ≠ .list := by decide +kernel
    exact absurd hkind (hnone f hf)
  have hapart : SubmitsApart orderForm.fields := by
    refine .intro (by decide +kernel) fun f hf hkind ↦ ?_
    have hcells : submittedCellsOf orderForm.fields =
        [{ name := "customer.name", component := "input" }, orderAddress, orderLines] := rfl
    rw [hcells] at hf
    simp only [List.mem_cons, List.not_mem_nil, or_false] at hf
    rcases hf with rfl | rfl | rfl
    · exact absurd hkind (by decide)
    · exact absurd hkind (by decide)
    · exact hlines
  exact ⟨hapart, submission_submits hapart values⟩

end Schema

end ReactiveForm
