import ReactiveForm.Table

/-!
# Laws of tables

What is found in a table after a change, and when two tables are the same.

The laws of looking up hold of any list of entries (`find?_insert`, `find?_erase`).  Those that
compare whole tables need the order: two tables in order that find the same under every name are
the same list (`Ordered.ext`).  So changes under different names can be made in either order, and a
later change under a name takes the place of an earlier one; neither needs a look at where in the
list the entries stand.

The entries that a table is made of may come in any order, as long as their names differ
(`ofList_perm`).

A set of names has the names it was made of, each once.
-/

set_option autoImplicit false
namespace ReactiveForm

namespace Table

variable {α β : Type} {t u : Table α} {name other : String} {a b : α}

/-! ## Looking up -/

@[simp] theorem find?_nil (name : String) : find? ([] : Table α) name = none := rfl

theorem find?_cons (e : String × α) (t : Table α) (name : String) :
    find? (e :: t) name = if name = e.1 then some e.2 else find? t name := by
  obtain ⟨n, a⟩ := e
  rw [find?, List.lookup_cons]
  by_cases h : name = n
  · rw [if_pos h, beq_iff_eq.2 h]
  · rw [if_neg h, beq_eq_false_iff_ne.2 h]
    rfl

theorem find?_eq_none_iff : t.find? name = none ↔ name ∉ t.names := by
  induction t with
  | nil => simp [names]
  | cons e t ih =>
    rw [find?_cons]
    by_cases h : name = e.1
    · simp [names, h]
    · rw [if_neg h, ih]
      simp [names, h]

theorem has_iff_mem_names : t.has name = true ↔ name ∈ t.names := by
  rw [has, ← Option.ne_none_iff_isSome, ne_eq, find?_eq_none_iff, Classical.not_not]

theorem mem_of_find? (h : t.find? name = some a) : (name, a) ∈ t := by
  induction t with
  | nil => simp at h
  | cons e t ih =>
    rw [find?_cons] at h
    split at h
    · obtain ⟨n, b⟩ := e
      simp_all
    · exact List.mem_cons_of_mem _ (ih h)

/-- What is found after putting something under a name. -/
theorem find?_insert (t : Table α) (name : String) (a : α) (other : String) :
    (t.insert name a).find? other = if other = name then some a else t.find? other := by
  induction t with
  | nil => rw [insert, find?_cons, find?_nil]
  | cons e t ih =>
    obtain ⟨n, b⟩ := e
    rw [insert]
    split
    · rename_i hn
      subst hn
      rw [find?_cons, find?_cons]
      split <;> rfl
    · rename_i hn
      split
      · rw [find?_cons]
      · rw [find?_cons, ih, find?_cons]
        by_cases ho : other = n
        · rw [if_pos ho, if_pos ho, if_neg (ho ▸ Ne.symm hn)]
        · rw [if_neg ho, if_neg ho]

/-- What is found after keeping some of the names. -/
theorem find?_filter (t : Table α) (keeps : String → Bool) (name : String) :
    find? (t.filter fun e ↦ keeps e.1) name = if keeps name then t.find? name else none := by
  induction t with
  | nil => simp
  | cons e t ih =>
    rw [List.filter_cons, find?_cons]
    by_cases hname : name = e.1
    · rw [if_pos hname, hname]
      split
      · rw [find?_cons, if_pos rfl]
      · rename_i hkeeps
        rw [← hname, ih, hname, if_neg hkeeps]
    · rw [if_neg hname]
      split
      · rw [find?_cons, if_neg hname, ih]
      · exact ih

/-- What is found after removing a name. -/
theorem find?_erase (t : Table α) (name other : String) :
    (t.erase name).find? other = if other = name then none else t.find? other := by
  rw [erase, find?_filter t (· != name)]
  by_cases hname : other = name <;> simp [hname]

/-! ## The names of a changed table -/

theorem mem_names_insert : other ∈ (t.insert name a).names ↔ other = name ∨ other ∈ t.names := by
  rw [← has_iff_mem_names, ← has_iff_mem_names, has, has, find?_insert]
  by_cases h : other = name <;> simp [h]

theorem mem_names_erase : other ∈ (t.erase name).names ↔ other ≠ name ∧ other ∈ t.names := by
  rw [← has_iff_mem_names, ← has_iff_mem_names, has, has, find?_erase]
  by_cases h : other = name <;> simp [h]

/-- An entry of a table with something put in is that or was there before. -/
theorem mem_insert {e : String × α} (h : e ∈ t.insert name a) : e = (name, a) ∨ e ∈ t := by
  induction t with
  | nil => simpa [insert] using h
  | cons f t ih =>
    obtain ⟨n, b⟩ := f
    rw [insert] at h
    split at h
    · exact (List.mem_cons.1 h).imp_right (List.mem_cons_of_mem _)
    · split at h
      · exact List.mem_cons.1 h
      · rcases List.mem_cons.1 h with h | h
        · exact .inr (h ▸ List.mem_cons_self)
        · exact (ih h).imp_right (List.mem_cons_of_mem _)

theorem mem_erase {e : String × α} (h : e ∈ t.erase name) : e ∈ t := (List.mem_filter.1 h).1

/-! ## Order -/

/-- **A table in order**: its names ascend, so that each is there once. -/
def Ordered (t : Table α) : Prop := t.names.Pairwise (· < ·)

instance (t : Table α) : Decidable t.Ordered := inferInstanceAs (Decidable (List.Pairwise _ _))

theorem ordered_nil : Ordered ([] : Table α) := List.Pairwise.nil

theorem ordered_cons {e : String × α} :
    Ordered (e :: t) ↔ (∀ n ∈ t.names, e.1 < n) ∧ t.Ordered := List.pairwise_cons

theorem Ordered.erase (h : t.Ordered) (name : String) : (t.erase name).Ordered :=
  List.Pairwise.sublist (List.filter_sublist.map _) h

theorem Ordered.insert (h : t.Ordered) (name : String) (a : α) : (t.insert name a).Ordered := by
  induction t with
  | nil => exact ordered_cons.2 ⟨by simp [names], ordered_nil⟩
  | cons e t ih =>
    obtain ⟨n, b⟩ := e
    obtain ⟨hn, ht⟩ := ordered_cons.1 h
    rw [Table.insert]
    split
    · rename_i he
      subst he
      exact ordered_cons.2 ⟨hn, ht⟩
    · rename_i he
      split
      · rename_i hlt
        refine ordered_cons.2 ⟨fun m hm ↦ ?_, h⟩
        rcases List.mem_cons.1 hm with rfl | hm
        · exact hlt
        · exact Std.lt_trans hlt (hn m hm)
      · rename_i hlt
        refine ordered_cons.2 ⟨fun m hm ↦ ?_, ih ht⟩
        rcases mem_names_insert.1 hm with rfl | hm
        · exact Std.lt_of_le_of_ne (Std.not_lt.1 hlt) (Ne.symm he)
        · exact hn m hm

/-- A name below all others is not found. -/
theorem find?_eq_none_of_lt (h : ∀ n ∈ t.names, name < n) : t.find? name = none :=
  find?_eq_none_iff.2 fun hn ↦ Std.lt_irrefl (h name hn)

/-- The first name of a table in order is no greater than any name that is found in it. -/
theorem Ordered.not_lt_head (hu : Ordered ((name, b) :: u))
    (h : find? ((name, b) :: u) other ≠ none) : ¬other < name := by
  intro hlt
  refine h (find?_eq_none_of_lt fun n hn ↦ ?_)
  rcases List.mem_cons.1 hn with rfl | hn
  · exact hlt
  · exact Std.lt_trans hlt ((ordered_cons.1 hu).1 n hn)

/-- **Tables in order that find the same are the same.** -/
theorem Ordered.ext (ht : t.Ordered) (hu : u.Ordered) (h : ∀ name, t.find? name = u.find? name) :
    t = u := by
  induction t generalizing u with
  | nil =>
    cases u with
    | nil => rfl
    | cons e u => simpa [find?_cons] using h e.1
  | cons e t ih =>
    obtain ⟨n, a⟩ := e
    cases u with
    | nil => simpa [find?_cons] using h n
    | cons f u =>
      obtain ⟨m, b⟩ := f
      have hnm : n = m := by
        rcases Std.lt_trichotomy n m with hlt | heq | hlt
        · exact absurd hlt (hu.not_lt_head (by simp [← h n, find?_cons]))
        · exact heq
        · exact absurd hlt (ht.not_lt_head (by simp [h m, find?_cons]))
      subst hnm
      have hab : a = b := by simpa [find?_cons] using h n
      subst hab
      obtain ⟨hn, ht⟩ := ordered_cons.1 ht
      obtain ⟨hm, hu⟩ := ordered_cons.1 hu
      have htail : t = u := ih ht hu fun k ↦ by
        by_cases hk : k = n
        · rw [hk, find?_eq_none_of_lt hn, find?_eq_none_of_lt hm]
        · simpa only [find?_cons, if_neg hk] using h k
      rw [htail]

/-! ## Overlays -/

/-- What is found after putting in some entries is the last one of them under the name. -/
theorem mem_of_find?_overlay {lower entries : Table α}
    (h : (lower.overlay entries).find? name = some a) :
    lower.find? name = some a ∨ (name, a) ∈ entries := by
  induction entries generalizing lower with
  | nil => exact .inl h
  | cons e entries ih =>
    rcases ih h with h | h
    · rw [find?_insert] at h
      split at h
      · rename_i hname
        exact .inr (by rw [hname, ← Option.some.inj h]; exact List.mem_cons_self)
      · exact .inl h
    · exact .inr (List.mem_cons_of_mem _ h)

/-- What a table of some entries finds is one of them. -/
theorem mem_of_find?_ofList {entries : List (String × α)}
    (h : (ofList entries).find? name = some a) : (name, a) ∈ entries :=
  (mem_of_find?_overlay h).resolve_left (by simp)

theorem find?_append (t u : Table α) (name : String) :
    find? (t ++ u) name = (t.find? name).or (u.find? name) := by
  induction t with
  | nil => rfl
  | cons e t ih =>
    rw [List.cons_append, find?_cons, find?_cons, ih]
    split <;> rfl

/-- What is found after putting in some entries: the last one of them under the name, or else what
was there. -/
theorem find?_overlay_reverse (lower entries : Table α) (name : String) :
    (lower.overlay entries).find? name =
      (find? entries.reverse name).or (lower.find? name) := by
  induction entries generalizing lower with
  | nil => rfl
  | cons e entries ih =>
    rw [overlay, List.foldl_cons, ← overlay, ih, List.reverse_cons, find?_append, find?_insert,
      find?_cons, find?_nil]
    cases find? entries.reverse name with
    | some a => rfl
    | none => by_cases hname : name = e.1 <;> simp [hname]

/-- **Of the entries of a table the last one under a name is found.** -/
theorem find?_ofList (entries : List (String × α)) (name : String) :
    (ofList entries).find? name = find? entries.reverse name := by
  rw [ofList, find?_overlay_reverse, find?_nil, Option.or_none]

theorem mem_names_overlay {lower upper : Table α} :
    name ∈ (lower.overlay upper).names ↔ name ∈ lower.names ∨ name ∈ upper.names := by
  induction upper generalizing lower with
  | nil => simp [overlay, names]
  | cons e upper ih =>
    have hcons : name ∈ names (e :: upper) ↔ name = e.1 ∨ name ∈ names upper := List.mem_cons
    rw [overlay, List.foldl_cons, ← overlay, ih, mem_names_insert, hcons, or_left_comm, or_assoc]

theorem Ordered.overlay {lower : Table α} (h : lower.Ordered) (upper : Table α) :
    (lower.overlay upper).Ordered := by
  induction upper generalizing lower with
  | nil => exact h
  | cons e upper ih => exact ih (h.insert e.1 e.2)

theorem Ordered.ofList (entries : List (String × α)) : (ofList entries).Ordered :=
  ordered_nil.overlay entries

/-- **Of two tables laid over each other the upper one is found first.** -/
theorem find?_overlay (lower : Table α) {upper : Table α} (h : upper.Ordered) (name : String) :
    (lower.overlay upper).find? name = (upper.find? name).or (lower.find? name) := by
  induction upper generalizing lower with
  | nil => rfl
  | cons e upper ih =>
    obtain ⟨hn, hupper⟩ := ordered_cons.1 h
    rw [overlay, List.foldl_cons, ← overlay, ih _ hupper, find?_insert, find?_cons]
    by_cases he : name = e.1
    · rw [if_pos he, if_pos he, he, find?_eq_none_of_lt hn]
      rfl
    · rw [if_neg he, if_neg he]

/-- A name that is removed might as well not have been entered. -/
theorem erase_ofList (entries : Table α) (name : String) :
    (ofList entries).erase name = ofList (entries.erase name) := by
  refine ((Ordered.ofList entries).erase name).ext (.ofList (entries.erase name)) fun other ↦ ?_
  have hreverse : (entries.erase name).reverse = erase entries.reverse name :=
    List.filter_reverse.symm
  rw [find?_erase, find?_ofList, find?_ofList, hreverse, find?_erase]

/-! ## Entries in another order -/

/-- **An entry is found under its name**, if the names differ. -/
theorem find?_eq_some_iff (h : t.names.Nodup) : t.find? name = some a ↔ (name, a) ∈ t := by
  refine ⟨mem_of_find?, fun hmem ↦ ?_⟩
  induction t with
  | nil => exact absurd hmem List.not_mem_nil
  | cons e t ih =>
    obtain ⟨hnew, ht⟩ := List.nodup_cons.1 h
    rw [find?_cons]
    rcases List.mem_cons.1 hmem with rfl | hmem
    · exact if_pos rfl
    · have hne : name ≠ e.1 := by
        rintro rfl
        exact hnew (List.mem_map.2 ⟨_, hmem, rfl⟩)
      rw [if_neg hne, ih ht hmem]

/-- **The order of entries does not matter**, if their names differ. -/
theorem ofList_perm {entries others : Table α} (h : entries.Perm others)
    (hnames : entries.names.Nodup) : ofList entries = ofList others := by
  have hnodup : ∀ reordered : Table α, entries.Perm reordered → reordered.names.Nodup :=
    fun reordered hperm ↦ (hperm.map _).nodup hnames
  have hentries := hnodup entries.reverse (List.reverse_perm entries).symm
  have hothers := hnodup others.reverse (h.trans (List.reverse_perm others).symm)
  refine (Ordered.ofList entries).ext (.ofList others) fun name ↦ Option.ext fun a ↦ ?_
  rw [find?_ofList, find?_ofList, find?_eq_some_iff hentries, find?_eq_some_iff hothers,
    List.mem_reverse, List.mem_reverse, h.mem_iff]

/-- What several things say of a name is found in the same way, if each of them says the same. -/
theorem find?_flatMap_congr {xs : List β} {g g' : β → Table α}
    (h : ∀ x ∈ xs, (g x).find? name = (g' x).find? name) :
    find? (xs.flatMap g) name = find? (xs.flatMap g') name := by
  induction xs with
  | nil => rfl
  | cons x xs ih =>
    rw [List.flatMap_cons, List.flatMap_cons, find?_append, find?_append, h x List.mem_cons_self,
      ih fun y hy ↦ h y (List.mem_cons_of_mem x hy)]

/-! ## The first of some entries -/

/-- What is found after putting something under a name unless the name is taken. -/
theorem find?_insertNew (t : Table α) (name : String) (a : α) (other : String) :
    (t.insertNew name a).find? other =
      (t.find? other).or (if other = name then some a else none) := by
  rw [insertNew]
  split
  · rename_i htaken
    by_cases h : other = name
    · obtain ⟨b, hb⟩ := Option.isSome_iff_exists.1 htaken
      rw [h, hb, Option.some_or]
    · rw [if_neg h, Option.or_none]
  · rename_i hfree
    rw [has, Option.not_isSome_iff_eq_none] at hfree
    rw [find?_insert]
    by_cases h : other = name
    · rw [if_pos h, if_pos h, h, hfree, Option.none_or]
    · rw [if_neg h, if_neg h, Option.or_none]

theorem Ordered.insertNew {t : Table α} (h : t.Ordered) (name : String) (a : α) :
    (t.insertNew name a).Ordered := by
  rw [Table.insertNew]
  split
  · exact h
  · exact h.insert name a

/-- What is in a table already is found there before what is put into it. -/
theorem find?_foldl_insertNew (entries : List (String × α)) (t : Table α) (name : String) :
    (entries.foldl (fun t e ↦ t.insertNew e.1 e.2) t).find? name =
      (t.find? name).or (find? entries name) := by
  induction entries generalizing t with
  | nil => exact Option.or_none.symm
  | cons e entries ih =>
    rw [List.foldl_cons, ih, find?_insertNew, Option.or_assoc, find?_cons]
    split <;> rfl

/-- **Of entries of which the first one under a name counts the first one is found.** -/
theorem find?_ofFirst (entries : List (String × α)) (name : String) :
    (ofFirst entries).find? name = find? entries name :=
  (find?_foldl_insertNew entries [] name).trans Option.none_or

theorem Ordered.ofFirst (entries : List (String × α)) : (ofFirst entries).Ordered :=
  List.foldlRecOn entries _ ordered_nil fun _ h e _ ↦ h.insertNew e.1 e.2

end Table

/-! ## Sets of names -/

namespace Names

variable {set : Names} {name other : String}

theorem mem_insert : other ∈ insert name set ↔ other = name ∨ other ∈ set := by
  induction set with
  | nil => simp [insert]
  | cons n set ih =>
    rw [insert]
    split
    · rename_i hn
      simp [hn]
    · split
      · exact List.mem_cons
      · rw [List.mem_cons, ih, List.mem_cons, or_left_comm]

theorem mem_insertAll {names : List String} :
    other ∈ insertAll set names ↔ other ∈ names ∨ other ∈ set := by
  induction names generalizing set with
  | nil => simp [insertAll]
  | cons n names ih =>
    rw [insertAll, List.foldl_cons, ← insertAll, ih, mem_insert, List.mem_cons, or_left_comm,
      ← or_assoc]

/-- **A set has the names it was made of.** -/
@[simp] theorem mem_ofList {names : List String} : other ∈ ofList names ↔ other ∈ names := by
  simp [ofList, mem_insertAll]

theorem pairwise_insert (h : List.Pairwise (· < ·) set) (name : String) :
    List.Pairwise (· < ·) (insert name set) := by
  induction set with
  | nil => exact List.pairwise_singleton _ _
  | cons n set ih =>
    obtain ⟨hn, hset⟩ := List.pairwise_cons.1 h
    rw [insert]
    split
    · exact h
    · rename_i hne
      split
      · rename_i hlt
        refine List.pairwise_cons.2 ⟨fun m hm ↦ ?_, h⟩
        rcases List.mem_cons.1 hm with rfl | hm
        · exact hlt
        · exact Std.lt_trans hlt (hn m hm)
      · rename_i hlt
        refine List.pairwise_cons.2 ⟨fun m hm ↦ ?_, ih hset⟩
        rcases mem_insert.1 hm with rfl | hm
        · exact Std.lt_of_le_of_ne (Std.not_lt.1 hlt) (Ne.symm hne)
        · exact hn m hm

theorem pairwise_ofList (names : List String) : List.Pairwise (· < ·) (ofList names) := by
  have hall : ∀ set : Names, List.Pairwise (· < ·) set →
      List.Pairwise (· < ·) (insertAll set names) := by
    induction names with
    | nil => exact fun _ h ↦ h
    | cons n names ih => exact fun _ h ↦ ih _ (pairwise_insert h n)
  exact hall [] List.Pairwise.nil

/-- A set has each of its names once. -/
theorem nodup_of_pairwise (h : List.Pairwise (· < ·) set) : set.Nodup := by
  refine List.Pairwise.imp (fun {a b} (hlt : a < b) ↦ ?_) h
  rintro rfl
  exact Std.lt_irrefl hlt

theorem nodup_ofList (names : List String) : (ofList names).Nodup :=
  nodup_of_pairwise (pairwise_ofList names)

/-- **A set is known by its members.** -/
theorem ext {others : Names} (hset : List.Pairwise (· < ·) set)
    (hothers : List.Pairwise (· < ·) others) (h : ∀ n, n ∈ set ↔ n ∈ others) : set = others := by
  refine List.Perm.eq_of_pairwise (fun a b _ _ hab hba ↦ ?_) hset hothers
    ((List.perm_ext_iff_of_nodup (nodup_of_pairwise hset) (nodup_of_pairwise hothers)).2 h)
  exact absurd (Std.lt_trans hab hba) Std.lt_irrefl

theorem ofList_congr {names others : List String} (h : ∀ n, n ∈ names ↔ n ∈ others) :
    ofList names = ofList others :=
  ext (pairwise_ofList names) (pairwise_ofList others) fun n ↦ by rw [mem_ofList, mem_ofList, h]

end Names

end ReactiveForm
