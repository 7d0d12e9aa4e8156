import ReactiveForm.Proofs.Fields
import ReactiveForm.Proofs.Validation

/-!
# The order of a tree of fields

A field stands at a place: the numbers of the fields that lead to it, each among its siblings.  So a
field comes before those inside it, and all of these before its next sibling.  `Stands` says what
stands where, with the name of what it is inside of and the names of the siblings before it;
`visitsOf` lists all of it, in the order of the places.

Two kinds of questions are answered along this list.  What a search finds first is what it finds at
a place with nothing before it (`findSome?_visitsOf_eq_some_iff`); and what counts under a name is
what the last field of that name says that says anything (`LastSays`).
-/

set_option autoImplicit false
namespace ReactiveForm

/-- **A field where it stands.** -/
structure Standing where
  field : Field
  /-- The name of what it is inside of. -/
  parent : String
  /-- The names of the siblings before it, the nearest one first. -/
  earlier : List String

/-- **What stands at a place** of some trees inside of `parent`. -/
inductive Stands : List Field → String → Place → Standing → Prop where
  | here {fs : List Field} {parent : String} {i : Nat} {f : Field} (h : fs[i]? = some f) :
      Stands fs parent [i] ⟨f, parent, ((fs.take i).map (·.name)).reverse⟩
  | inside {fs : List Field} {parent : String} {i : Nat} {f : Field} {place : Place} {x : Standing}
      (h : fs[i]? = some f) (later : Stands f.columns f.name place x) :
      Stands fs parent (i :: place) x

/-! ## The list of all places -/

mutual

/-- A field and all fields inside it, each with its place. -/
def Field.visits (parent : String) (earlier : List String) (i : Nat) :
    Field → List (Place × Standing)
  | ⟨d, columns⟩ =>
    ([i], ⟨⟨d, columns⟩, parent, earlier⟩) ::
      (visitsOf d.name [] 0 columns).map fun v ↦ (i :: v.1, v.2)

/-- **All fields of some trees**, each with its place; the first tree has the number `i`, and stands
behind siblings with the given names. -/
def visitsOf (parent : String) (earlier : List String) (i : Nat) :
    List Field → List (Place × Standing)
  | [] => []
  | f :: fs => f.visits parent earlier i ++ visitsOf parent (f.name :: earlier) (i + 1) fs

end

variable {fs : List Field} {f : Field} {parent : String} {earlier : List String} {i : Nat}
  {place : Place} {x : Standing} {v : Place × Standing}

mutual

theorem Field.map_field_visits : ∀ (f : Field) (parent : String) (earlier : List String) (i : Nat),
    (f.visits parent earlier i).map (·.2.field) = f.subtree
  | ⟨d, columns⟩, parent, earlier, i => by
    rw [Field.visits, Field.subtree, List.map_cons, List.map_map]
    exact congrArg _ (map_field_visitsOf columns d.name [] 0)

/-- The fields are listed in their order. -/
theorem map_field_visitsOf : ∀ (fs : List Field) (parent : String) (earlier : List String)
    (i : Nat), (visitsOf parent earlier i fs).map (·.2.field) = preorder fs
  | [], _, _, _ => rfl
  | f :: fs, parent, earlier, i => by
    rw [visitsOf, preorder, List.map_append, f.map_field_visits, map_field_visitsOf fs]

end

/-! ## Places are listed in their order -/

theorem Field.place_of_mem_visits (h : v ∈ f.visits parent earlier i) :
    ∃ rest, v.1 = i :: rest := by
  obtain ⟨d, columns⟩ := f
  rw [Field.visits, List.mem_cons, List.mem_map] at h
  rcases h with rfl | ⟨w, -, rfl⟩
  · exact ⟨[], rfl⟩
  · exact ⟨w.1, rfl⟩

theorem place_of_mem_visitsOf (h : v ∈ visitsOf parent earlier i fs) :
    ∃ j rest, i ≤ j ∧ v.1 = j :: rest := by
  induction fs generalizing earlier i with
  | nil => exact absurd h List.not_mem_nil
  | cons f fs ih =>
    rw [visitsOf, List.mem_append] at h
    rcases h with h | h
    · obtain ⟨rest, hrest⟩ := f.place_of_mem_visits h
      exact ⟨i, rest, Nat.le_refl i, hrest⟩
    · obtain ⟨j, rest, hj, hrest⟩ := ih h
      exact ⟨j, rest, Nat.le_of_succ_le hj, hrest⟩

mutual

theorem Field.pairwise_before_visits : ∀ (f : Field) (parent : String) (earlier : List String)
    (i : Nat), (f.visits parent earlier i).Pairwise fun v w ↦ v.1.Before w.1
  | ⟨d, columns⟩, parent, earlier, i => by
    rw [Field.visits, List.pairwise_cons, List.pairwise_map]
    refine ⟨fun w hw ↦ ?_, ?_⟩
    · -- a place comes before all that it is the beginning of
      obtain ⟨u, hu, rfl⟩ := List.mem_map.1 hw
      obtain ⟨j, rest, -, hrest⟩ := place_of_mem_visitsOf hu
      rw [hrest]
      exact Place.before_cons_iff.2 .nil
    · exact (pairwise_before_visitsOf columns d.name [] 0).imp Place.before_cons_iff.2

/-- **The places are listed in their order.** -/
theorem pairwise_before_visitsOf : ∀ (fs : List Field) (parent : String) (earlier : List String)
    (i : Nat), (visitsOf parent earlier i fs).Pairwise fun v w ↦ v.1.Before w.1
  | [], _, _, _ => .nil
  | f :: fs, parent, earlier, i => by
    rw [visitsOf, List.pairwise_append]
    refine ⟨f.pairwise_before_visits .., pairwise_before_visitsOf fs .., fun v hv w hw ↦ ?_⟩
    obtain ⟨rest, hrest⟩ := f.place_of_mem_visits hv
    obtain ⟨j, rest', hj, hrest'⟩ := place_of_mem_visitsOf hw
    rw [hrest, hrest']
    exact .of_lt hj rest rest'

end

/-! ## What is listed is what stands somewhere -/

/-- What is listed of some trees is what is listed of each of them, behind those before it. -/
theorem mem_visitsOf_iff : v ∈ visitsOf parent earlier i fs ↔
    ∃ (j : Nat) (f : Field), fs[j]? = some f ∧
      v ∈ f.visits parent (((fs.take j).map (·.name)).reverse ++ earlier) (i + j) := by
  induction fs generalizing earlier i with
  | nil => simp [visitsOf]
  | cons g fs ih =>
    rw [visitsOf, List.mem_append, ih]
    constructor
    · rintro (h | ⟨j, f, hf, h⟩)
      · exact ⟨0, g, rfl, h⟩
      · refine ⟨j + 1, f, hf, ?_⟩
        rw [List.take_succ_cons, List.map_cons, List.reverse_cons, List.append_assoc,
          Nat.add_comm j 1, ← Nat.add_assoc]
        exact h
    · rintro ⟨_ | j, f, hf, h⟩
      · obtain rfl : g = f := by simpa using hf
        exact .inl h
      · refine .inr ⟨j, f, hf, ?_⟩
        rw [List.take_succ_cons, List.map_cons, List.reverse_cons, List.append_assoc,
          Nat.add_comm j 1, ← Nat.add_assoc] at h
        exact h

/-- What is listed of a field is the field itself, or is listed of the fields inside. -/
theorem Field.mem_visits_iff : v ∈ f.visits parent earlier i ↔
    v = ([i], ⟨f, parent, earlier⟩) ∨
      ∃ place, v.1 = i :: place ∧ (place, v.2) ∈ visitsOf f.name [] 0 f.columns := by
  obtain ⟨d, columns⟩ := f
  rw [Field.visits, List.mem_cons, List.mem_map]
  refine or_congr_right ⟨?_, ?_⟩
  · rintro ⟨w, hw, rfl⟩
    exact ⟨w.1, rfl, hw⟩
  · rintro ⟨place, hplace, hmem⟩
    exact ⟨(place, v.2), hmem, Prod.ext hplace.symm rfl⟩

mutual

theorem Field.stands_of_mem_visits : ∀ (f : Field) {place : Place} {x : Standing},
    (place, x) ∈ visitsOf f.name [] 0 f.columns → Stands f.columns f.name place x
  | ⟨_, columns⟩, _, _, h => by
    obtain ⟨j, g, hg, hmem⟩ := mem_visitsOf_iff.1 h
    rw [List.append_nil, Nat.zero_add] at hmem
    rcases Field.mem_visits_iff.1 hmem with heq | ⟨place, rfl, hinside⟩
    · cases heq
      exact .here hg
    · exact .inside hg (stands_of_mem_columns columns g (List.mem_of_getElem? hg) hinside)

theorem stands_of_mem_columns : ∀ (fs : List Field), ∀ f ∈ fs, ∀ {place : Place} {x : Standing},
    (place, x) ∈ visitsOf f.name [] 0 f.columns → Stands f.columns f.name place x
  | [], _, hf, _, _, _ => absurd hf List.not_mem_nil
  | g :: fs, f, hf, _, _, h => by
    rcases List.mem_cons.1 hf with heq | hf
    · rw [heq] at h ⊢
      exact g.stands_of_mem_visits h
    · exact stands_of_mem_columns fs f hf h

end

/-- **What is listed is what stands somewhere.** -/
theorem mem_visitsOf_iff_stands :
    (place, x) ∈ visitsOf parent [] 0 fs ↔ Stands fs parent place x := by
  constructor
  · intro h
    exact Field.stands_of_mem_visits ⟨{ name := parent }, fs⟩ h
  · intro h
    induction h with
    | here h =>
      refine mem_visitsOf_iff.2 ⟨_, _, h, Field.mem_visits_iff.2 (.inl ?_)⟩
      rw [List.append_nil, Nat.zero_add]
    | inside h _ ih =>
      refine mem_visitsOf_iff.2 ⟨_, _, h, Field.mem_visits_iff.2 (.inr ⟨_, ?_, ih⟩)⟩
      rw [Nat.zero_add]

/-! ## The first and the last one -/

/-- What is found first in a list that is in order is found with nothing before it. -/
theorem findSome?_eq_some_iff_of_pairwise {α β : Type} {R : α → α → Prop}
    (hasymm : ∀ a b, R a b → ¬R b a) {l : List α} (h : l.Pairwise R) {g : α → Option β} {b : β} :
    l.findSome? g = some b ↔ ∃ a ∈ l, g a = some b ∧ ∀ c ∈ l, R c a → g c = none := by
  rw [List.findSome?_eq_some_iff]
  constructor
  · rintro ⟨before, a, after, rfl, ha, hbefore⟩
    refine ⟨a, List.mem_append_right _ List.mem_cons_self, ha, fun c hc hca ↦ ?_⟩
    rw [List.pairwise_append, List.pairwise_cons] at h
    rcases List.mem_append.1 hc with hc | hc
    · exact hbefore c hc
    · rcases List.mem_cons.1 hc with rfl | hc
      · exact absurd hca (hasymm _ _ hca)
      · exact absurd hca (hasymm _ _ (h.2.1.1 c hc))
  · rintro ⟨a, ha, hb, hfirst⟩
    obtain ⟨before, after, rfl⟩ := List.append_of_mem ha
    refine ⟨before, a, after, rfl, hb, fun c hc ↦ ?_⟩
    exact hfirst c (List.mem_append_left _ hc)
      ((List.pairwise_append.1 h).2.2 c hc a List.mem_cons_self)

/-- **What a search through a tree finds first.** -/
theorem findSome?_visitsOf_eq_some_iff {β : Type} {g : Standing → Option β} {b : β} :
    (visitsOf parent [] 0 fs).findSome? (fun v ↦ g v.2) = some b ↔
      ∃ place x, Stands fs parent place x ∧ g x = some b ∧
        ∀ other y, Stands fs parent other y → other.Before place → g y = none := by
  rw [findSome?_eq_some_iff_of_pairwise (fun _ _ h ↦ h.asymm)
    (pairwise_before_visitsOf fs parent [] 0)]
  simp only [Prod.exists, Prod.forall, mem_visitsOf_iff_stands]

/-- **The last word of a tree under a name**: what the last field of that name says of those that
say anything. -/
def LastSays {α : Type} (fs : List Field) (name : String) (said : Field → Option α) (a : α) :
    Prop :=
  ∃ place x, Stands fs rootName place x ∧ x.field.name = name ∧ said x.field = some a ∧
    ∀ later y, Stands fs rootName later y → place.Before later → y.field.name = name →
      said y.field = none

theorem lastSaid?_eq_some_iff {α : Type} {name : String} {said : Field → Option α} {a : α} :
    lastSaid? (preorder fs) name said = some a ↔ LastSays fs name said a := by
  rw [lastSaid?, ← map_field_visitsOf fs rootName [] 0, ← List.map_reverse, List.findSome?_map,
    findSome?_eq_some_iff_of_pairwise (fun _ _ h ↦ h.asymm)
      (List.pairwise_reverse.2 (pairwise_before_visitsOf fs rootName [] 0))]
  simp only [List.mem_reverse, Prod.exists, Prod.forall, mem_visitsOf_iff_stands, LastSays,
    Function.comp_apply, ite_eq_right_iff, Option.ite_none_right_eq_some, and_assoc]

end ReactiveForm
