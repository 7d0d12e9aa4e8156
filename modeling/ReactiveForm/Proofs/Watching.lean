import ReactiveForm.Form.Validation
import ReactiveForm.Proofs.Evaluation
import ReactiveForm.Proofs.Fields

/-!
# What a host has to watch

A host need not ask for the states of the fields again as long as nothing has changed that they
depend on.  What that is, the schema tells: `Schema.watched` collects the paths that the conditions
and the computations of all fields read.

`Schema.watched_complete` says that nothing is missing.  Two records that agree on the watched paths
give the same states, have the same fields to check and the same ones required, and every computed
field has the same value among both.  The one part that the library cannot see into is a predicate,
a test that is given in code with a list of the paths it reads; the list must be true
(`Condition.Honest`).
-/

set_option autoImplicit false
namespace ReactiveForm

variable {values other : Record}

/-- Whether two records have the same values at some paths. -/
def Record.AgreeOn (paths : List String) (values other : Record) : Prop :=
  ∀ path ∈ paths, values.at? path = other.at? path

theorem Record.AgreeOn.mono {paths more : List String} (h : Record.AgreeOn more values other)
    (hsub : paths ⊆ more) : Record.AgreeOn paths values other :=
  fun path hpath ↦ h path (hsub hpath)

/-! ## Conditions -/

namespace Condition

mutual

/-- **Whether the predicates of a condition read no more than they promise.** -/
def Honest : Condition → Prop
  | .all parts | .any parts => AllHonest parts
  | .not part => Honest part
  | .predicate reads test =>
    ∀ values other, Record.AgreeOn reads values other → test values = test other
  | .field .. | .unreadable _ => True

/-- Whether the predicates of some conditions read no more than they promise. -/
def AllHonest : List Condition → Prop
  | [] => True
  | c :: cs => Honest c ∧ AllHonest cs

end

mutual

/-- **A condition reads its paths only.** -/
theorem holds_congr : ∀ c : Condition, c.Honest → Record.AgreeOn c.reads values other →
    c.holds values = c.holds other
  | .field path comparator operand, _, h => by
    rw [holds, holds, h path List.mem_cons_self]
  | .all parts, hhonest, h => by
    rw [holds, holds]
    exact (holds_congr_of_all parts hhonest h).1
  | .any parts, hhonest, h => by
    rw [holds, holds]
    exact (holds_congr_of_all parts hhonest h).2
  | .not part, hhonest, h => by rw [holds, holds, holds_congr part hhonest h]
  | .predicate _ _, hhonest, h => hhonest values other h
  | .unreadable _, _, _ => rfl

/-- Conditions read their paths only, be they joined by conjunction or by disjunction. -/
theorem holds_congr_of_all : ∀ cs : List Condition, AllHonest cs →
    Record.AgreeOn (allReads cs) values other →
      allHold values cs = allHold other cs ∧ anyHolds values cs = anyHolds other cs
  | [], _, _ => ⟨rfl, rfl⟩
  | c :: cs, ⟨hc, hcs⟩, h => by
    have hhead := holds_congr c hc (h.mono (List.subset_append_left ..))
    obtain ⟨hall, hany⟩ := holds_congr_of_all cs hcs (h.mono (List.subset_append_right ..))
    rw [allHold, allHold, anyHolds, anyHolds, hhead, hall, hany]
    exact ⟨rfl, rfl⟩

end

end Condition

/-! ## Fields -/

namespace Declaration

variable {d : Declaration}

/-- **Whether the predicates of a field read no more than they promise.** -/
def Honest (d : Declaration) : Prop := ∀ c ∈ d.conditions, c.Honest

theorem condition_congr (hhonest : d.Honest) (h : Record.AgreeOn d.reactsTo values other)
    {c : Condition} (hc : c ∈ d.conditions) : c.holds values = c.holds other := by
  refine c.holds_congr (hhonest c hc) (h.mono fun path hpath ↦ Names.mem_ofList.2 ?_)
  exact List.mem_append_left _ (List.mem_append_right _ (List.mem_flatMap.2 ⟨c, hc, hpath⟩))

theorem isVisible_congr (hhonest : d.Honest) (h : Record.AgreeOn d.reactsTo values other) :
    d.isVisible values = d.isVisible other := by
  have hcondition : holdsIfGiven d.visibleWhen values = holdsIfGiven d.visibleWhen other := by
    cases hc : d.visibleWhen with
    | none => rfl
    | some c => exact condition_congr hhonest h (by simp [conditions, hc])
  rw [isVisible, isVisible, hcondition]

theorem isRequiredAt_congr (hhonest : d.Honest) (h : Record.AgreeOn d.reactsTo values other) :
    d.isRequiredAt values = d.isRequiredAt other := by
  have hcondition : givenAndHolds d.requiredWhen values = givenAndHolds d.requiredWhen other := by
    cases hc : d.requiredWhen with
    | none => rfl
    | some c => exact condition_congr hhonest h (by simp [conditions, hc])
  rw [isRequiredAt, isRequiredAt, hcondition]

/-- **The state of a field** depends on what it reacts to. -/
theorem state_congr (hhonest : d.Honest) (h : Record.AgreeOn d.reactsTo values other)
    (flags : FormFlags) : d.state values flags = d.state other flags := by
  have hcondition : givenAndHolds d.disabledWhen values = givenAndHolds d.disabledWhen other := by
    cases hc : d.disabledWhen with
    | none => rfl
    | some c => exact condition_congr hhonest h (by simp [conditions, hc])
  rw [state, state, hcondition, isVisible_congr hhonest h, isRequiredAt_congr hhonest h]

end Declaration

mutual

theorem Field.checked_congr : ∀ f : Field, (∀ g ∈ f.subtree, g.Honest) →
    (∀ g ∈ f.subtree, Record.AgreeOn g.reactsTo values other) →
      f.checked values = f.checked other
  | ⟨d, columns⟩, hhonest, h => by
    have hself : ⟨d, columns⟩ ∈ Field.subtree ⟨d, columns⟩ := List.mem_cons_self
    have hcolumns := checkedOf_congr columns
      (fun g hg ↦ hhonest g (List.mem_cons_of_mem _ hg))
      (fun g hg ↦ h g (List.mem_cons_of_mem _ hg))
    rw [Field.checked, Field.checked, d.isVisible_congr (hhonest _ hself) (h _ hself), hcolumns,
      d.isRequiredAt_congr (hhonest _ hself) (h _ hself)]

/-- **What is to be checked of some fields** depends on what they react to. -/
theorem checkedOf_congr : ∀ fs : List Field, (∀ g ∈ preorder fs, g.Honest) →
    (∀ g ∈ preorder fs, Record.AgreeOn g.reactsTo values other) →
      checkedOf values fs = checkedOf other fs
  | [], _, _ => rfl
  | f :: fs, hhonest, h => by
    rw [checkedOf, checkedOf,
      f.checked_congr (fun g hg ↦ hhonest g (List.mem_append_left _ hg))
        (fun g hg ↦ h g (List.mem_append_left _ hg)),
      checkedOf_congr fs (fun g hg ↦ hhonest g (List.mem_append_right _ hg))
        (fun g hg ↦ h g (List.mem_append_right _ hg))]

end

/-! ## Forms -/

namespace Schema

variable {s : Schema} {f : Field}

theorem reactsTo_subset_watched (hf : f ∈ s.allFields) : f.reactsTo ⊆ s.watched := fun _ hpath ↦
  Names.mem_ofList.2 (List.mem_flatMap.2 ⟨f, hf, hpath⟩)

/-- **Nothing else has to be watched.**  Among two records that agree on the watched paths the
fields have the same states, the same of them are checked and required, and the computed ones have
the same values. -/
theorem watched_complete (s : Schema) (hhonest : ∀ f ∈ s.allFields, f.Honest)
    (h : Record.AgreeOn s.watched values other) :
    (∀ flags, s.states values flags = s.states other flags) ∧
      s.checked values = s.checked other ∧
      ∀ f ∈ s.allFields, ∀ c, f.computation = some c → c.evaluate values = c.evaluate other := by
  have hagree : ∀ f ∈ s.allFields, Record.AgreeOn f.reactsTo values other := fun f hf ↦
    h.mono (reactsTo_subset_watched hf)
  refine ⟨fun flags ↦ ?_, checkedOf_congr s.fields hhonest hagree, fun f hf c hc ↦ ?_⟩
  · rw [states, states, List.map_congr_left fun f hf ↦
      by rw [f.state_congr (hhonest f hf) (hagree f hf) flags]]
  · refine c.evaluate_congr fun path hpath ↦ hagree f hf path (Names.mem_ofList.2 ?_)
    refine List.mem_append_right _ ?_
    rw [hc]
    exact hpath

/-- A parcel that may be insured if it has a price, which a test in code decides, and no code. -/
def insuranceSchema : Schema where
  fields := [{ name := "price", component := "number" }, { name := "code", component := "input" },
    { name := "insured", component := "switch",
      visibleWhen := some (.all [.isEmpty "code",
        .predicate ["price"] fun values ↦ (values.at? "price").isSome]) },
    { name := "premium", component := "number", computation := some { source := "price * 2" } }]
  computeOrder := ["premium"]

/-- A note that no field reacts to changes nothing. -/
theorem insuranceSchema_overlooks_note :
    insuranceSchema.states [("note", .text "fragile"), ("price", .integer 3)] {} =
      insuranceSchema.states [("price", .integer 3)] {} := by
  have hhonest : ∀ f ∈ insuranceSchema.allFields, f.Honest := by
    intro f hf c hc
    simp only [insuranceSchema, allFields, preorder, Field.subtree, List.append_nil,
      List.cons_append, List.nil_append, List.mem_cons, List.not_mem_nil, or_false] at hf
    rcases hf with rfl | rfl | rfl | rfl <;>
      simp only [Declaration.conditions, Option.toList_none, Option.toList_some, List.append_nil,
        List.mem_cons, List.not_mem_nil, or_false] at hc
    rw [hc]
    exact ⟨trivial, fun values other h ↦ congrArg Option.isSome (h "price" List.mem_cons_self),
      trivial⟩
  have hwatched : insuranceSchema.watched = ["code", "price"] := by decide +kernel
  refine (insuranceSchema.watched_complete hhonest fun path hpath ↦ ?_).1 {}
  rw [hwatched] at hpath
  rcases List.mem_pair.1 hpath with rfl | rfl <;> rfl

end Schema

end ReactiveForm
