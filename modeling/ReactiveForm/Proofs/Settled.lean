import ReactiveForm.Proofs.Agreement
import ReactiveForm.Proofs.Clearing
import ReactiveForm.Proofs.Replay

/-!
# One recomputation settles everything

For a steady schema the values after a recomputation are at rest: recomputing from them proposes
nothing, and every computed field of the form and every computed cell of its lists agrees with its
computation.

Two things meet here.  The settled values come out of a pass of computing (`Schema.Reached`), so
those of a steady schema are in agreement (`Schema.settling_resting`); and they are what the host
gets by replaying the proposed writes, of a steady schema as of any replayable one
(`Schema.Replayable.applyAll_writes`).  For the latter the clearing must last: a cleared field is
never computed, and a cleared list has no rows to compute, so making the clearing once more changes
nothing.

Rows call for some care.  Two columns such as `0` and `00` are different names of a record but the
same number of a row, so that their cells lie apart only as long as the row is a record.  It is, for
cells are computed in rows that are records, and those are records from the start; `Schema.Early`
says so of the values that computed writes lead to.
-/

set_option autoImplicit false
namespace ReactiveForm

open Record Write

namespace Schema

variable {s : Schema} {limit : Nat} {fs : List Field} {epsilon : Binary64} {e : Finite64}
  {flags : FormFlags} {previous : Option Record} {next values : Record} {w : Write}
  {list : Field} {name path : String}

/-! ## Where something is computed

Writes to names that are apart commute.  What is left are two cells of one row: as long as the row
is a record, each of the writes puts a column into it, and these are different. -/

/-- **The paths at which a replayable schema computes**: names of computed fields, and cells in rows
that are records from the start. -/
inductive Computable (s : Schema) (next : Record) : String → Prop where
  | field {name : String} {f : Field} (hname : name ∈ s.computeOrder)
      (hfield : s.field? name = some f) : Computable s next name
  | cell {list column : Field} {index : Nat} (hlist : list ∈ outerListsOf s.fields)
      (hcolumn : column ∈ s.computedCells list)
      (hrow : (next.rowAt? list.name index).isSome) :
      Computable s next (cellPath list.name index column.name)

/-- **The values that computed writes lead to** from the first ones: regular, and rows that were
records still are. -/
structure Early (s : Schema) (next values : Record) : Prop where
  regular : values.Regular
  rows : ∀ list ∈ outerListsOf s.fields, ∀ index, (next.rowAt? list.name index).isSome →
    (values.rowAt? list.name index).isSome

/-- Records in rows are neither made nor lost by writing cells. -/
theorem isSome_rowAt?_write_cellPath {listName other columnName : String} {index : Nat}
    (hvalues : values.Regular) (hlist : isDotted listName = false)
    (hother : isDotted other = false) (hcolumn : isDotted columnName = false)
    (hrow : (values.rowAt? listName index).isSome) (x : Option Value) (otherIndex : Nat) :
    ((values.write (cellPath listName index columnName) x).rowAt? other otherIndex).isSome =
      (values.rowAt? other otherIndex).isSome := by
  obtain ⟨row, hrow⟩ := Option.isSome_iff_exists.1 hrow
  by_cases hne : other = listName
  · subst hne
    rw [hvalues.rowAt?_write_cellPath hlist hcolumn hrow]
    split
    · rename_i hindex
      rw [hindex, hrow]
      rfl
    · rfl
  · rw [rowAt?_congr hother (hvalues.plain.find?_write_cellPath hlist hne ..)]

/-- The rows of a list are where they were if another name is written. -/
theorem rowAt?_put_of_ne (hlist : isDotted list.name = false) (hne : list.name ≠ name)
    (x : Option Value) (index : Nat) :
    (values.put name x).rowAt? list.name index = values.rowAt? list.name index :=
  rowAt?_congr hlist (find?_put_of_ne hne) index

/-- Two writes to cells of one row change the row twice. -/
theorem write_cellPath_write_cellPath {listName column column' : String} {index : Nat}
    {row : Record} {rows : List Value} (hvalues : values.WellFormed)
    (hflat : ¬values.HoldsFlat (cellPath listName index column))
    (hflat' : ¬values.HoldsFlat (cellPath listName index column'))
    (hlist : isDotted listName = false) (hcolumn : isDotted column = false)
    (hcolumn' : isDotted column' = false)
    (hrows : Table.find? values listName = some (.list rows))
    (hrow : rows[index]? = some (.record row)) {x y : Option Value}
    (hx : ∀ v, x = some v → v.WellFormed)
    (hne : cellPath listName index column ≠ cellPath listName index column') :
    (values.write (cellPath listName index column) x).write (cellPath listName index column') y =
      values.put listName
        (some (.list (rows.set index (.record ((row.put column x).put column' y))))) := by
  have hfirst := hvalues.write_cellPath hflat hlist hcolumn hrows hrow x
  have hafter : (values.write (cellPath listName index column) x).WellFormed := hvalues.write _ hx
  have hindex : index < rows.length := (List.getElem?_eq_some_iff.1 hrow).1
  have hrows' : Table.find? (values.write (cellPath listName index column) x) listName =
      some (.list (rows.set index (.record (row.put column x)))) := by
    rw [hfirst, find?_put_self]
  have hrow' : (rows.set index (.record (row.put column x)))[index]? =
      some (.record (row.put column x)) := by
    rw [List.getElem?_set_self hindex]
  rw [hafter.write_cellPath (mt (holdsFlat_write_iff hne.symm x).1 hflat') hlist hcolumn' hrows'
    hrow', List.set_set, hfirst, put_put hvalues.ordered]

/-- Writes to cells of one row commute, as long as the row is a record. -/
theorem commutes_cellPath {a b : Write} {listName column column' : String} {index : Nat}
    {row : Record} (hvalues : values.WellFormed) (hlist : isDotted listName = false)
    (hcolumn : isDotted column = false) (hcolumn' : isDotted column' = false)
    (hrow : values.rowAt? listName index = some row)
    (ha : a.path = cellPath listName index column) (hb : b.path = cellPath listName index column')
    (hafits : a.Fits) (hbfits : b.Fits) (hne : a.path ≠ b.path) :
    (values.apply a).apply b = (values.apply b).apply a := by
  have hordered := (hvalues.rowAt? hrow).ordered
  obtain ⟨rows, hrows, hindex⟩ := (rowAt?_eq_some_iff hlist).1 hrow
  rw [apply, apply, apply, apply]
  -- a cell that is held flat is written beside the list
  by_cases hflat : values.HoldsFlat a.path
  · exact write_comm_of_holdsFlat hvalues hflat hne _ _
  by_cases hflat' : values.HoldsFlat b.path
  · exact (write_comm_of_holdsFlat hvalues hflat' hne.symm _ _).symm
  rw [ha] at hflat hne
  rw [hb] at hflat' hne
  have hcolumns : column ≠ column' := fun heq ↦ hne (by rw [heq])
  rw [ha, hb, write_cellPath_write_cellPath hvalues hflat hflat' hlist hcolumn hcolumn' hrows hindex
      hafits hne,
    write_cellPath_write_cellPath hvalues hflat' hflat hlist hcolumn' hcolumn hrows hindex hbfits
      hne.symm, put_comm hordered hcolumns]

/-! ## Replaying what is computed

The proposed writes come in another order than they were made in, with a later one in the place of
an earlier one at its path.  That this leads to the same values takes three things, which `Orderly`
asks for: what is computed keeps the values in order, computed writes at different paths commute,
and a cleared name is apart from what is computed or has it inside. -/

/-- More rows, more paths. -/
theorem Computable.mono (hpath : s.Computable next path)
    (hrows : ∀ list ∈ outerListsOf s.fields, ∀ index, (next.rowAt? list.name index).isSome →
      (values.rowAt? list.name index).isSome) : s.Computable values path := by
  cases hpath with
  | field hname hfield => exact .field hname hfield
  | cell hlist hcolumn hrow => exact .cell hlist hcolumn (hrows _ hlist _ hrow)

/-- What is computed is computed at such a path. -/
theorem Computes.computable (hw : s.Computes epsilon values w) : s.Computable values w.path := by
  cases hw with
  | field hname hform hfield hw =>
    rw [Declaration.computedWrite?_eq_some hw]
    exact .field hname hfield
  | cell hlist hcolumn hrow hw =>
    rw [Declaration.computedWrite?_eq_some hw]
    exact .cell hlist hcolumn (by rw [hrow]; rfl)

/-- **What is computed** makes no row a record, and keeps those that are. -/
theorem Computable.isSome_rowAt? (hpath : s.Computable values w.path)
    (hs : ofFields limit fs = .ok s) (h : s.Replayable) (hvalues : values.Regular)
    (hlist : list ∈ outerListsOf s.fields) (index : Nat) :
    ((values.apply w).rowAt? list.name index).isSome =
      (values.rowAt? list.name index).isSome := by
  have hdot := h.plain.of_mem_lists hlist
  generalize hp : w.path = p at hpath
  rw [apply, hp]
  cases hpath with
  | field hname hfield =>
    rw [write_of_not_isDotted (h.plain.of_field? hfield), rowAt?_put_of_ne hdot
      (Ne.symm (h.ne_list_of_mem_computeOrder hs hname hlist))]
  | cell hlist' hcolumn hrow =>
    exact isSome_rowAt?_write_cellPath hvalues (h.plain.of_mem_lists hlist') hdot
      (h.plain _ (mem_allFields_of_mem_computedCells hlist' hcolumn)) hrow _ _

/-- A computed write leads from such values to such values. -/
theorem Early.keeps (hs : ofFields limit fs = .ok s) (h : s.Replayable)
    (hpath : s.Computable next w.path) (hfits : w.Fits) : w.Keeps (s.Early next) := by
  intro V hV
  refine ⟨hfits.keeps_regular V hV.regular, fun list hlist index hrow ↦ ?_⟩
  rw [(hpath.mono hV.rows).isSome_rowAt? hs h hV.regular hlist]
  exact hV.rows list hlist index hrow

/-- **Paths at which something is computed** lie apart, unless they are cells of one row. -/
theorem Computable.apart_or_cells {p q : String} (hs : ofFields limit fs = .ok s) (h : s.Replayable)
    (hnext : next.WellFormed) (hp : s.Computable next p) (hq : s.Computable next q) (hne : p ≠ q) :
    Apart p q ∨ ∃ list ∈ outerListsOf s.fields, ∃ column ∈ s.computedCells list,
      ∃ column' ∈ s.computedCells list, ∃ index, (next.rowAt? list.name index).isSome ∧
        p = cellPath list.name index column.name ∧ q = cellPath list.name index column'.name := by
  cases hp with
  | field hname hfield =>
    refine .inl ?_
    have hdot := h.plain.of_field? hfield
    cases hq with
    | field hname' hfield' => exact apart_of_ne hdot (h.plain.of_field? hfield') hne
    | cell hlist' hcolumn' hrow' =>
      exact apart_of_head_ne (segments_of_not_isDotted hdot)
        (segments_cellPath (h.plain.of_mem_lists hlist') _ _)
        (h.ne_list_of_mem_computeOrder hs hname hlist')
  | @cell list column index hlist hcolumn hrow =>
    have hlistDot := h.plain.of_mem_lists hlist
    cases hq with
    | field hname' hfield' =>
      exact .inl (apart_cellPath hlistDot (h.plain.of_field? hfield')
        (Ne.symm (h.ne_list_of_mem_computeOrder hs hname' hlist)) _ _)
    | @cell list' column' index' hlist' hcolumn' hrow' =>
      by_cases hsame : list.name = list'.name
      · obtain rfl := h.distinct.eq_of_name_eq (mem_allFields_of_mem_lists hlist)
          (mem_allFields_of_mem_lists hlist') hsame
        by_cases hindex : index = index'
        · subst hindex
          exact .inr ⟨list, hlist, column, hcolumn, column', hcolumn', index, hrow, rfl, rfl⟩
        · exact .inl (apart_cellPath_cellPath hlistDot (hnext.index_lt_of_rowAt? hlistDot hrow)
            (hnext.index_lt_of_rowAt? hlistDot hrow') hindex)
      · exact .inl (apart_of_head_ne (segments_cellPath hlistDot _ _)
          (segments_cellPath (h.plain.of_mem_lists hlist') _ _) hsame)

/-- Computed writes at different paths commute. -/
theorem Early.commutes {a b : Write} (hs : ofFields limit fs = .ok s) (h : s.Replayable)
    (hnext : next.WellFormed) (ha : s.Computable next a.path) (hb : s.Computable next b.path)
    (hafits : a.Fits) (hbfits : b.Fits) (hne : a.path ≠ b.path) :
    Commutes (s.Early next) a b := by
  intro V hV
  rcases ha.apart_or_cells hs h hnext hb hne with happart |
    ⟨list, hlist, column, hcolumn, column', hcolumn', index, hrow, hp, hq⟩
  · exact commutes_of_apart happart V hV.regular
  · have hdot : ∀ c ∈ s.computedCells list, isDotted c.name = false := fun c hc ↦
      h.plain c (mem_allFields_of_mem_computedCells hlist hc)
    obtain ⟨row, hrowV⟩ := Option.isSome_iff_exists.1 (hV.rows list hlist index hrow)
    exact commutes_cellPath hV.regular.wellFormed (h.plain.of_mem_lists hlist) (hdot column hcolumn)
      (hdot column' hcolumn') hrowV hp hq hafits hbfits hne

/-- What a replayable schema computes and clears can be replayed. -/
theorem Replayable.orderly (hs : ofFields limit fs = .ok s) (h : s.Replayable)
    (hnext : next.WellFormed) :
    Orderly (s.Early next) (s.Computable next) (· ∈ s.clearable) where
  regular _ hV := hV.regular
  keeps _ hpath hfits := Early.keeps hs h hpath hfits
  commutes _ _ ha hb hafits hbfits hne := Early.commutes hs h hnext ha hb hafits hbfits hne
  overlap p q hp hq := by
    have hdot := h.plain.of_mem_clearable hq
    cases hp with
    | field hname hfield =>
      by_cases heq : p = q
      · exact .inr (heq ▸ Inside.refl _)
      · exact .inl (apart_of_ne (h.plain.of_field? hfield) hdot heq)
    | @cell list column index hlist hcolumn hrow =>
      have hlistDot := h.plain.of_mem_lists hlist
      by_cases heq : list.name = q
      · exact .inr (heq ▸ inside_cellPath hlistDot _ _)
      · exact .inl (apart_cellPath hlistDot hdot heq _ _)
  apart p q hp hq hne := apart_of_ne (h.plain.of_mem_clearable hp) (h.plain.of_mem_clearable hq) hne

/-! ## What has been cleared stays cleared

Clearing once more changes nothing, because nothing is put where something has been cleared: no
computed field is, and where a list has been cleared there are no rows to compute cells in. -/

/-- What single writes keep true of the values: they are regular, no row becomes a record, and given
names hold what clearing them put there. -/
structure Lasting (s : Schema) (next : Record) (names : List String) (values : Record) : Prop where
  regular : values.Regular
  rows : ∀ list ∈ outerListsOf s.fields, ∀ index, (values.rowAt? list.name index).isSome →
    (next.rowAt? list.name index).isSome
  cleared : ∀ n ∈ names, Table.find? values n = (s.clearing n).value

section

variable {names : List String}

/-- What is cleared is not computed. -/
theorem Replayable.notMem_computeOrder_of_clearable (hs : ofFields limit fs = .ok s)
    (h : s.Replayable) (hname : name ∈ s.clearable) : name ∉ s.computeOrder := by
  intro horder
  obtain ⟨f, hf, rfl, hcomputed⟩ := (mem_computeOrder_iff hs).1 horder
  obtain ⟨g, hg, hclear⟩ := mem_clearable_iff.1 hname
  obtain rfl : f = g := Option.some.inj ((h.distinct.field?_eq hf).symm.trans hg)
  rw [h.notCleared f hf hcomputed] at hclear
  cases hclear

/-- A cleared list has no rows that are records. -/
theorem rowAt?_of_cleared (hdot : isDotted name = false)
    (hcleared : Table.find? values name = (s.clearing name).value) (index : Nat) :
    values.rowAt? name index = none := by
  rw [rowAt?, at?_of_not_isDotted hdot, hcleared, clearing]
  split
  · rename_i rows hrows
    split at hrows
    · obtain rfl := Value.list.inj (Option.some.inj hrows)
      rfl
    · cases hrows
  · rfl

/-- **Computing lets what has been cleared be.** -/
theorem Lasting.apply_computed (hlasting : s.Lasting next names values)
    (hs : ofFields limit fs = .ok s) (h : s.Replayable) (hnames : ∀ n ∈ names, n ∈ s.clearable)
    (hw : s.Computes epsilon values w) : s.Lasting next names (values.apply w) := by
  have hregular := hlasting.regular
  refine ⟨hregular.apply_of_computes hw, fun list hlist index hrow ↦ ?_, fun n hn ↦ ?_⟩
  · rw [hw.computable.isSome_rowAt? hs h hregular hlist] at hrow
    exact hlasting.rows list hlist index hrow
  · rw [← hlasting.cleared n hn]
    have hdot := h.plain.of_mem_clearable (hnames n hn)
    cases hw with
    | field hname hform hfield hw =>
      rw [Declaration.computedWrite?_eq_some hw, apply,
        write_of_not_isDotted (h.plain.of_field? hfield), find?_put_of_ne]
      rintro rfl
      exact h.notMem_computeOrder_of_clearable hs (hnames n hn) hname
    | cell hlist' hcolumn hrow hw =>
      rw [Declaration.computedWrite?_eq_some hw, apply,
        hregular.plain.find?_write_cellPath (h.plain.of_mem_lists hlist')]
      rintro rfl
      rw [rowAt?_of_cleared hdot (hlasting.cleared _ hn)] at hrow
      cases hrow

/-- Clearing a name more lets the others be. -/
theorem Lasting.apply_clearing (hlasting : s.Lasting next names values) (h : s.Replayable)
    (hname : name ∈ s.clearable) :
    s.Lasting next (names ++ [name]) (values.apply (s.clearing name)) := by
  have hdot := h.plain.of_mem_clearable hname
  have hvalues : values.apply (s.clearing name) = values.put name (s.clearing name).value :=
    write_of_not_isDotted hdot _
  rw [hvalues]
  have hfits : ∀ v, (s.clearing name).value = some v → v.WellFormed := by
    intro v hv
    rw [clearing] at hv
    split at hv
    · exact Option.some.inj hv ▸ .list (by decide) (by simp)
    · cases hv
  refine ⟨⟨hlasting.regular.plain.put hdot _, hlasting.regular.wellFormed.put _ hfits⟩,
    fun list hlist index hrow ↦ ?_, fun n hn ↦ ?_⟩
  · by_cases hne : list.name = name
    · rw [hne, rowAt?_of_cleared hdot (find?_put_self _ _ _)] at hrow
      cases hrow
    · rw [rowAt?_put_of_ne (h.plain.of_mem_lists hlist) hne] at hrow
      exact hlasting.rows list hlist index hrow
  · rw [find?_put]
    split
    · rename_i heq
      rw [heq]
    · rename_i hne
      exact hlasting.cleared n
        ((List.mem_append.1 hn).resolve_right fun hn ↦ hne (List.mem_singleton.1 hn))

theorem Lasting.computePass (hlasting : s.Lasting next names values) (epsilon : Binary64)
    (hs : ofFields limit fs = .ok s) (h : s.Replayable) (hnames : ∀ n ∈ names, n ∈ s.clearable) :
    s.Lasting next names (s.computePass epsilon values).values ∧
      ∀ w ∈ (s.computePass epsilon values).writes, s.Computable next w.path :=
  computePass_forall hlasting fun _ _ hV hw ↦
    ⟨hV.apply_computed hs h hnames hw, hw.computable.mono hV.rows⟩

theorem Lasting.clearRound (hlasting : s.Lasting next names values) (h : s.Replayable)
    {sources kept : List String} :
    s.Lasting next (names ++ (s.clearRound sources kept values).writes.map (·.path))
      (s.clearRound sources kept values).values :=
  clearRound_induction (P := fun p ↦ s.Lasting next (names ++ p.writes.map (·.path)) p.values)
    (by simpa using hlasting) fun p w hp ⟨name, hname, _, hw⟩ ↦ by
      have hclear := (mem_clearTargets_iff.1 hname).1
      rw [hw, Progress.extend, List.map_append, ← List.append_assoc]
      exact hp.apply_clearing h hclear

end

/-! ## Where a replayable schema settles

What the rounds of a settling keep true, by induction on them: `Reached.start` is the pass before
the first of them, `Reached.round` a clearing with the pass behind it. -/

/-- What every round keeps true of the settling values of a replayable schema, which come out of a
pass of computing. -/
structure Reached (s : Schema) (epsilon : Binary64) (next : Record) (st : Settling) : Prop where
  lasting : s.Lasting next (st.cleared.map (·.path)) st.values
  clearable : ∀ p ∈ st.cleared.map (·.path), p ∈ s.clearable
  clearing : ∀ w ∈ st.cleared, w = s.clearing w.path
  computable : ∀ p ∈ st.computed.map (·.path), s.Computable next p
  passed : ∃ values : Record, values.Regular ∧ st.values = (s.computePass epsilon values).values

theorem Reached.start (hs : ofFields limit fs = .ok s) (h : s.Replayable) (hnext : next.Regular) :
    s.Reached epsilon next ⟨(s.computePass epsilon next).values,
      mergeWrites [] (s.computePass epsilon next).writes, []⟩ := by
  have hlasting : s.Lasting next [] next := ⟨hnext, fun _ _ _ hrow ↦ hrow, by simp⟩
  obtain ⟨hpass, hpaths⟩ := hlasting.computePass epsilon hs h (by simp)
  refine ⟨hpass, by simp, by simp, fun p hp ↦ ?_, next, hnext, rfl⟩
  obtain ⟨w, hw, rfl⟩ := List.mem_map.1 ((mem_paths_mergeWrites.1 hp).resolve_left (by simp))
  exact hpaths w hw

theorem Reached.round {st : Settling} {sources kept : List String}
    (hst : s.Reached epsilon next st) (hs : ofFields limit fs = .ok s) (h : s.Replayable) :
    let round := s.clearRound sources kept st.values
    let pass := s.computePass epsilon round.values
    s.Reached epsilon next
      ⟨pass.values, mergeWrites st.computed pass.writes, st.cleared ++ round.writes⟩ := by
  intro round pass
  have hclearable : ∀ p ∈ (st.cleared ++ round.writes).map (·.path), p ∈ s.clearable := by
    intro p hp
    rw [List.map_append, List.mem_append] at hp
    rcases hp with hp | hp
    · exact hst.clearable p hp
    · obtain ⟨w, hw, rfl⟩ := List.mem_map.1 hp
      exact (path_mem_of_mem_clearRound hw).1
  have hround : s.Lasting next ((st.cleared ++ round.writes).map (·.path)) round.values := by
    rw [List.map_append]
    exact hst.lasting.clearRound h
  obtain ⟨hpass, hpaths⟩ := hround.computePass epsilon hs h hclearable
  refine ⟨hpass, hclearable, fun w hw ↦ ?_, fun p hp ↦ ?_, round.values, hround.regular, rfl⟩
  · exact (List.mem_append.1 hw).elim (hst.clearing w) eq_clearing_of_mem_clearRound
  · rcases mem_paths_mergeWrites.1 hp with hp | hp
    · exact hst.computable p hp
    · obtain ⟨w, hw, rfl⟩ := List.mem_map.1 hp
      exact hpaths w hw

/-- Wherever a replayable schema settles, it has come there by rounds. -/
theorem settling_reached (hs : ofFields limit fs = .ok s) (h : s.Replayable) (epsilon : Binary64)
    (previous : Option Record) (hnext : next.Regular) :
    s.Reached epsilon next (s.settling epsilon previous next) := by
  obtain ⟨_, _, hreached, -⟩ := settling_induction s epsilon previous next
    (Q := fun _ _ st ↦ s.Reached epsilon next st)
    (Reached.start hs h hnext) fun _ _ _ hst ↦ hst.round hs h
  exact hreached

/-- Making the clearing once more changes nothing where a replayable schema has settled. -/
theorem Reached.applyAll_cleared {st : Settling} (hst : s.Reached epsilon next st)
    (h : s.Replayable) : st.values.applyAll st.cleared = st.values := by
  refine List.foldlRecOn (motive := (· = st.values)) _ _ rfl fun V hV w hw ↦ ?_
  have hpath := List.mem_map_of_mem (f := (·.path)) hw
  have hvalue : Table.find? st.values w.path = w.value := by
    rw [hst.lasting.cleared _ hpath, ← hst.clearing w hw]
  rw [hV, apply, write_of_not_isDotted (h.plain.of_mem_clearable (hst.clearable _ hpath))]
  exact put_eq_self hst.lasting.regular.wellFormed.ordered hvalue

/-- **Replaying the proposed writes of a replayable schema leads to its settled values.** -/
theorem Replayable.applyAll_writes (hs : ofFields limit fs = .ok s) (h : s.Replayable)
    (flags : FormFlags) (epsilon : Binary64) (previous : Option Record) (hnext : next.Regular) :
    next.applyAll (s.recompute flags epsilon previous next).writes =
      (s.settling epsilon previous next).values := by
  have hreached := settling_reached hs h epsilon previous hnext
  rw [Schema.applyAll_writes (h.orderly hs hnext.wellFormed) ⟨hnext, fun _ _ _ hrow ↦ hrow⟩ flags
    hreached.computable hreached.clearable]
  exact hreached.applyAll_cleared h

/-- So the states of a replayable schema are those of the replayed values. -/
theorem Replayable.states_replay (hs : ofFields limit fs = .ok s) (h : s.Replayable)
    (flags : FormFlags) (epsilon : Binary64) (previous : Option Record) (hnext : next.Regular) :
    (s.recompute flags epsilon previous next).states =
      s.states (next.applyAll (s.recompute flags epsilon previous next).writes) flags := by
  rw [h.applyAll_writes hs flags epsilon previous hnext]
  rfl

/-! ## Where a steady schema settles

The last thing that a settling does is a pass of computing, and behind a pass of a steady schema the
values are in agreement.  So another pass has nothing to write, and without a change there is
nothing to clear. -/

/-- The settled values of a steady schema are in agreement. -/
structure Resting (s : Schema) (epsilon : Binary64) (next : Record) (st : Settling) : Prop
    extends s.Reached epsilon next st where
  agreement : s.Agreement epsilon st.values

theorem settling_resting (hs : ofFields limit fs = .ok s) (h : s.Steady) (he : 0 ≤ e.signed)
    (previous : Option Record) (hnext : next.Regular) :
    s.Resting (.finite e) next (s.settling (.finite e) previous next) := by
  have hreached := settling_reached hs h.replayable (.finite e) previous hnext
  obtain ⟨values, hvalues, hpass⟩ := hreached.passed
  exact ⟨hreached, hpass ▸ agreement_computePass hs h he hvalues⟩

/-- Nothing has changed where nothing is different. -/
theorem changed_self (s : Schema) (values : Record) : s.changed (some values) values = [] := by
  rw [List.eq_nil_iff_forall_not_mem]
  intro path hpath
  simp [mem_changed_some] at hpath

/-- **Recomputing values in agreement proposes nothing.** -/
theorem recompute_of_agreement (h : s.Agreement epsilon values) (flags : FormFlags) :
    (s.recompute flags epsilon (some values) values).computed = [] ∧
      (s.recompute flags epsilon (some values) values).cleared = [] := by
  have hround : (s.clearRound [] [] values).writes = [] := rfl
  have hsettling : s.settling epsilon (some values) values = ⟨values, [], []⟩ := by
    rw [settling, changed_self, computePass_of_agreement h]
    exact settle_of_writes_eq_nil hround
  rw [recompute_eq, hsettling]
  exact ⟨rfl, rfl⟩

/-- A computed cell is one that is computed. -/
theorem mem_computedCells_of_computed (hs : ofFields limit fs = .ok s) (h : s.DistinctNames)
    (hlist : list ∈ outerListsOf s.fields) {column : Field}
    (hcolumn : column ∈ cellsOf list.columns)
    (hcomputed : column.computation.isSome) : column ∈ s.computedCells list := by
  have hmem : ∀ c ∈ cellsOf list.columns, c ∈ s.allFields := fun c hc ↦
    (cons_cellsOf_sublist_preorder (mem_allFields_of_mem_lists hlist)).subset
      (List.mem_cons_of_mem _ hc)
  have hname : column.name ∈ s.computeOrder :=
    (mem_computeOrder_iff hs).2 ⟨column, hmem column hcolumn, rfl, hcomputed⟩
  refine List.mem_filterMap.2 ⟨column.name, hname, ?_⟩
  have hsome : ((cellsOf list.columns).find? fun c ↦ c.name == column.name).isSome :=
    List.find?_isSome.2 ⟨column, hcolumn, by simp⟩
  obtain ⟨c, hc⟩ := Option.isSome_iff_exists.1 hsome
  have heq := List.find?_some hc
  rw [beq_iff_eq] at heq
  rw [hc, h.eq_of_name_eq (hmem c (List.mem_of_find?_eq_some hc)) (hmem column hcolumn) heq]

/-- **One recomputation settles everything**: from the values after its writes a recomputation
proposes nothing more, and all computed fields of the form and all computed cells of its lists agree
with their computations. -/
theorem recompute_settles (hs : ofFields limit fs = .ok s) (h : s.Steady) (he : 0 ≤ e.signed)
    (flags : FormFlags) (previous : Option Record) (hplain : next.Plain)
    (hnext : next.WellFormed) :
    let settled := next.applyAll (s.recompute flags (.finite e) previous next).writes
    let again := s.recompute flags (.finite e) (some settled) settled
    again.computed = [] ∧ again.cleared = [] ∧
    (∀ f ∈ s.allFields, f.computation.isSome → f.name ∉ s.rowNames →
      f.Agrees (.finite e) settled (settled.at? f.name)) ∧
    ∀ list ∈ outerListsOf s.fields, ∀ column ∈ cellsOf list.columns, column.computation.isSome →
      ∀ index row, settled.rowAt? list.name index = some row →
        column.Agrees (.finite e) (settled.overlay row) (row.at? column.name) := by
  intro settled again
  have hagreement : s.Agreement (.finite e) settled := by
    have hreplay := h.replayable.applyAll_writes hs flags (.finite e) previous ⟨hplain, hnext⟩
    rw [show settled = _ from hreplay]
    exact (settling_resting hs h he previous ⟨hplain, hnext⟩).agreement
  obtain ⟨hcomputed, hcleared⟩ := recompute_of_agreement hagreement flags
  refine ⟨hcomputed, hcleared, fun f hf hcompute hform ↦ ?_,
    fun list hlist column hcolumn hcompute index ↦ ?_⟩
  · have horder := (mem_computeOrder_iff hs).2 ⟨f, hf, rfl, hcompute⟩
    exact hagreement.fields f.name horder hform f (h.distinct.field?_eq hf)
  · exact hagreement.cells list hlist column
      (mem_computedCells_of_computed hs h.distinct hlist hcolumn hcompute) index

/-- A rate, the fee for two hours, and hours that are charged with the fee on top. -/
def invoiceSchema : Schema where
  fields := [{ name := "rate", component := "number" },
    { name := "fee", component := "number", computation := some { source := "rate * 2" } },
    { name := "items", component := "list", columns := [{ name := "hours", component := "number" },
      { name := "sum", component := "number",
        computation := some { source := "hours * rate + fee" } }] }]
  computeOrder := ["fee", "sum"]

/-- An invoice with one row is settled by one recomputation. -/
theorem invoice_settles :
    let next : Record := [("items", .list [.record [("hours", .integer 3)]]), ("rate", .integer 2)]
    let settled := next.applyAll (invoiceSchema.recompute {} (.finite .zero) none next).writes
    let again := invoiceSchema.recompute {} (.finite .zero) (some settled) settled
    again.computed = [] ∧ again.cleared = [] := by
  intro next settled again
  have haccepted : ofFields defaultDepthLimit invoiceSchema.fields = .ok invoiceSchema :=
    ofFields_of_order rfl (by cbv)
  have hrow : (Value.record [("hours", .integer 3)]).WellFormed :=
    .record (by decide) (by simp [Value.WellFormed.integer])
  have hitems : (Value.list [.record [("hours", .integer 3)]]).WellFormed :=
    .list (by decide) (by simpa using hrow)
  have hnext : next.WellFormed :=
    .record (by decide) (by simp [next, hitems, Value.WellFormed.integer])
  obtain ⟨hcomputed, hcleared, -⟩ := recompute_settles haccepted (by decide +kernel)
    (e := .zero) (by decide) {} none (by decide) hnext
  exact ⟨hcomputed, hcleared⟩

end Schema
end ReactiveForm
