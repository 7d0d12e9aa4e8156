import ReactiveForm.Form.Validation
import ReactiveForm.Proofs.Fields

/-!
# Which fields are shown, and which are checked

The state of a field says whether the field is shown, and the validation checks the fields that are
shown.  The two do not mean the same.  A state looks at one field by itself, and a field in a group
that is not shown may well be shown by its own conditions; the validation goes down from the top of
the form, and leaves out such a group with everything inside it.

`Schema.mem_checked_iff_visible` says how the two are related: a field is checked exactly if it and
all groups around it have the state of being shown.  So a field that is checked is always shown, but
one that is shown is checked only if no group around it is hidden
(`Schema.states_show_unchecked_street`).
-/

set_option autoImplicit false
namespace ReactiveForm

variable {values : Record} {fs groups : List Field} {f g : Field} {name : String}

/-- **A field of a form**, at the top or inside groups only; these are listed from the outermost
one. -/
inductive InGroups : List Field → List Field → Field → Prop
  | here {fs : List Field} {f : Field} (h : f ∈ fs) : InGroups fs [] f
  | inside {fs groups : List Field} {f g : Field} (hg : g ∈ fs) (hkind : g.kind = .group)
      (h : InGroups g.columns groups f) : InGroups fs (g :: groups) f

/-! ## Names in the tree -/

mutual

theorem Field.mem_subtree_of_mem_checked {c : Checked} : ∀ f : Field, c ∈ f.checked values →
    c.field ∈ f.subtree
  | ⟨d, columns⟩, h => by
    rw [Field.checked] at h
    rw [Field.subtree]
    split at h
    · exact absurd h List.not_mem_nil
    · split at h
      · exact List.mem_cons_of_mem _ (mem_preorder_of_mem_checkedOf columns h)
      · rw [List.mem_singleton.1 h]
        exact List.mem_cons_self

/-- Only fields of the tree are checked. -/
theorem mem_preorder_of_mem_checkedOf {c : Checked} : ∀ fs : List Field, c ∈ checkedOf values fs →
    c.field ∈ preorder fs
  | [], h => absurd h List.not_mem_nil
  | f :: fs, h => by
    rw [checkedOf, List.mem_append] at h
    rw [preorder, List.mem_append]
    exact h.imp f.mem_subtree_of_mem_checked (mem_preorder_of_mem_checkedOf fs)

end

namespace InGroups

/-- A field in groups and the groups around it are fields of the tree. -/
theorem mem_preorder (h : InGroups fs groups f) :
    f ∈ preorder fs ∧ ∀ g ∈ groups, g ∈ preorder fs := by
  induction h with
  | @here fs f hf =>
    exact ⟨subtree_subset_preorder hf (mem_subtree_self f), nofun⟩
  | @inside fs groups f g hg _ _ ih =>
    have hcolumns := List.Subset.trans (preorder_columns_sublist g).subset
      (subtree_subset_preorder hg)
    refine ⟨hcolumns ih.1, List.forall_mem_cons.2 ⟨?_, fun other hother ↦ ?_⟩⟩
    · exact subtree_subset_preorder hg (mem_subtree_self g)
    · exact hcolumns (ih.2 other hother)

end InGroups

/-! ## What is checked -/

/-- Among fields whose names all differ a name is checked only where it is declared. -/
theorem mem_checkedOf_iff (hnodup : ((preorder fs).map (·.name)).Nodup) (hg : g ∈ fs)
    (hname : name ∈ g.subtree.map (·.name)) :
    name ∈ (checkedOf values fs).map (·.field.name) ↔
      name ∈ (g.checked values).map (·.field.name) := by
  induction fs with
  | nil => exact absurd hg List.not_mem_nil
  | cons f fs ih =>
    rw [preorder, List.map_append] at hnodup
    obtain ⟨-, hfs, hdisjoint⟩ := List.nodup_append.1 hnodup
    have hdeclared : ∀ x ∈ fs, x.subtree.map (·.name) ⊆ (preorder fs).map (·.name) := fun x hx ↦
      List.map_subset _ (subtree_subset_preorder hx)
    rw [checkedOf, List.map_append, List.mem_append]
    rcases List.mem_cons.1 hg with rfl | hg
    · refine or_iff_left fun hchecked ↦ ?_
      obtain ⟨c, hc, rfl⟩ := List.mem_map.1 hchecked
      exact hdisjoint _ hname _ (List.mem_map_of_mem (mem_preorder_of_mem_checkedOf fs hc)) rfl
    · rw [← ih hfs hg]
      refine or_iff_right fun hchecked ↦ ?_
      obtain ⟨c, hc, rfl⟩ := List.mem_map.1 hchecked
      exact hdisjoint _ (List.mem_map_of_mem (f.mem_subtree_of_mem_checked hc)) _
        (hdeclared g hg hname) rfl

/-- **A field is checked exactly if it and all groups around it are shown.** -/
theorem InGroups.mem_checkedOf_iff (h : InGroups fs groups f) (hkind : f.kind ≠ .group)
    (hnodup : ((preorder fs).map (·.name)).Nodup) :
    f.name ∈ (checkedOf values fs).map (·.field.name) ↔
      f.isVisible values = true ∧ ∀ g ∈ groups, g.isVisible values = true := by
  induction h with
  | @here fs f hf =>
    rw [ReactiveForm.mem_checkedOf_iff hnodup hf (List.mem_map_of_mem (mem_subtree_self f))]
    obtain ⟨d, columns⟩ := f
    rw [Field.checked, if_neg hkind]
    cases d.isVisible values <;> simp
  | @inside fs groups f g hg hgroup hcolumns ih =>
    have hname : f.name ∈ g.subtree.map (·.name) :=
      List.mem_map_of_mem ((preorder_columns_sublist g).subset hcolumns.mem_preorder.1)
    have hsublist := (preorder_columns_sublist g).trans
      (subtree_sublist_preorder fs (subtree_subset_preorder hg (mem_subtree_self g)))
    rw [ReactiveForm.mem_checkedOf_iff hnodup hg hname, List.forall_mem_cons, and_left_comm,
      ← ih hkind (hnodup.sublist (hsublist.map _))]
    obtain ⟨d, columns⟩ := g
    rw [Field.checked, if_pos hgroup]
    cases d.isVisible values <;> simp

namespace Schema

variable {s : Schema}

/-- A field is shown by its state if it is shown by its own conditions. -/
theorem visible_of_mem (hnames : s.DistinctNames) (hf : f ∈ s.allFields) (values : Record)
    (flags : FormFlags) :
    ((s.states values flags).find? f.name).any (·.visible) = f.isVisible values := by
  rw [find?_states, hnames.field?_eq hf]
  rfl

/-- **What is checked is what is shown with all groups around it**, by the states of the fields. -/
theorem mem_checked_iff_visible (hnames : s.DistinctNames) (h : InGroups s.fields groups f)
    (hkind : f.kind ≠ .group) (values : Record) (flags : FormFlags) :
    f.name ∈ (s.checked values).map (·.field.name) ↔
      ((s.states values flags).find? f.name).any (·.visible) = true ∧
        ∀ g ∈ groups, ((s.states values flags).find? g.name).any (·.visible) = true := by
  obtain ⟨hf, hgroups⟩ := h.mem_preorder
  rw [checked, h.mem_checkedOf_iff hkind hnames, visible_of_mem hnames hf]
  refine and_congr_right' (forall₂_congr fun g hg ↦ ?_)
  rw [visible_of_mem hnames (hgroups g hg)]

/-- The street of an address. -/
def street : Field where
  name := "street"
  component := "input"
  rules := [.required]

/-- An address, which is shown only if something is sent there. -/
def address : Field where
  name := "address"
  component := "group"
  visibleWhen := some (.equals "ship" (.bool true))
  columns := [street]

/-- A form that asks for an address if something is sent. -/
def shippingSchema : Schema where
  fields := [{ name := "ship", component := "switch" }, address]
  computeOrder := []

/-- If something is sent there, the street is checked. -/
theorem shippingSchema_checks_street :
    shippingSchema.DistinctNames ∧ InGroups shippingSchema.fields [address] street ∧
      street.kind ≠ .group ∧
      street.name ∈ (shippingSchema.checked [("ship", .bool true)]).map (·.field.name) := by
  have hnames : shippingSchema.DistinctNames := by decide +kernel
  have hstreet : InGroups shippingSchema.fields [address] street :=
    .inside (List.mem_cons_of_mem _ List.mem_cons_self) (by decide) (.here List.mem_cons_self)
  have hkind : street.kind ≠ .group := by decide
  exact ⟨hnames, hstreet, hkind,
    (mem_checked_iff_visible hnames hstreet hkind _ {}).2 (by decide +kernel)⟩

/-- If nothing is sent, the street is shown by its state, and yet it is not checked. -/
theorem states_show_unchecked_street :
    ofFields defaultDepthLimit shippingSchema.fields = .ok shippingSchema ∧
      shippingSchema.DistinctNames ∧ InGroups shippingSchema.fields [address] street ∧
      street.kind ≠ .group ∧ street.kind ≠ .hidden ∧ street.hidden = false ∧
      ((shippingSchema.states [("ship", .bool false)] {}).find? "street").any (·.visible) = true ∧
      "street" ∉ (shippingSchema.checked [("ship", .bool false)]).map (·.field.name) := by
  have hstreet : InGroups shippingSchema.fields [address] street :=
    .inside (List.mem_cons_of_mem _ List.mem_cons_self) (by decide) (.here List.mem_cons_self)
  exact ⟨ofFields_of_order rfl (by cbv), by decide +kernel, hstreet, by decide,
    by decide, rfl, by decide +kernel, by decide +kernel⟩

end Schema

end ReactiveForm
