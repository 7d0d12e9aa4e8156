import ReactiveForm.Graph.Order
import ReactiveForm.Proofs.Table

/-!
# The order of computations is one

When `Graph.order` gives an order, that order has every node once (`mem_order_iff`, `order_nodup`),
and no node leads to itself or to a node that comes later (`order_irrefl`, `order_pairwise`).

What carries this through the search is that the nodes placed so far are *complete*: whatever node a
placed one leads to is placed as well.  A node is placed when what it leads to is placed and it is
not itself; so no node before it can lead to it.  It is not itself because what is placed while it
is on the way down is never on the way down.
-/

set_option autoImplicit false
namespace ReactiveForm
namespace Graph

variable {g : Graph} {path placed out order nodes : List String} {node : String}

theorem next_of_find? {inputs : Names} (h : g.find? node = some inputs) : g.next node = inputs := by
  rw [next, h, Option.getD_some]

theorem mem_names_of_find? {inputs : Names} (h : g.find? node = some inputs) :
    node ∈ g.names := by
  rw [← Table.has_iff_mem_names, Table.has, h, Option.isSome_some]

/-- **Nodes that are in order**, with all nodes that they lead to. -/
structure Placed (g : Graph) (placed : List String) : Prop where
  nodup : placed.Nodup
  complete : ∀ a ∈ placed, ∀ b ∈ g.next a, b ∈ g.names → b ∈ placed
  pairwise : placed.Pairwise fun a b ↦ b ∉ g.next a
  irrefl : ∀ a ∈ placed, a ∉ g.next a

theorem Placed.nil : g.Placed [] :=
  ⟨List.nodup_nil, by simp, List.Pairwise.nil, by simp⟩

/-- A node is placed behind all it leads to. -/
theorem Placed.snoc (h : g.Placed placed) (hnode : node ∈ g.names) (hnew : node ∉ placed)
    (hnext : ∀ b ∈ g.next node, b ∈ g.names → b ∈ placed) : g.Placed (placed ++ [node]) where
  nodup := List.nodup_append.2 ⟨h.nodup, List.pairwise_singleton _ _, fun a ha b hb hab ↦
    hnew (List.mem_singleton.1 hb ▸ hab ▸ ha)⟩
  complete a ha b hb hname := by
    refine List.mem_append_left _ ?_
    rcases List.mem_append.1 ha with ha | ha
    · exact h.complete a ha b hb hname
    · exact hnext b (List.mem_singleton.1 ha ▸ hb) hname
  pairwise := by
    refine List.pairwise_append.2 ⟨h.pairwise, List.pairwise_singleton _ _, fun a ha b hb hab ↦ ?_⟩
    obtain rfl := List.mem_singleton.1 hb
    exact hnew (h.complete a ha b hab hnode)
  irrefl a ha haa := by
    rcases List.mem_append.1 ha with ha | ha
    · exact h.irrefl a ha haa
    · obtain rfl := List.mem_singleton.1 ha
      exact hnew (hnext a haa hnode)

/-- **What placing some nodes does**: they are placed then, and what has been added is no part of
the way down. -/
structure Places (g : Graph) (path placed nodes out : List String) : Prop where
  inOrder : g.Placed out
  subset : placed ⊆ out
  all : ∀ n ∈ nodes, n ∈ g.names → n ∈ out
  fresh : ∀ n ∈ out, n ∈ placed ∨ (n ∉ path ∧ n ∈ g.names)

theorem Places.refl (h : g.Placed placed) (hall : ∀ n ∈ nodes, n ∈ g.names → n ∈ placed) :
    g.Places path placed nodes placed :=
  ⟨h, List.Subset.refl _, hall, fun _ ↦ .inl⟩

theorem Places.trans {more : List String} (h : g.Places path placed [node] more)
    (h' : g.Places path more nodes out) : g.Places path placed (node :: nodes) out where
  inOrder := h'.inOrder
  subset := List.Subset.trans h.subset h'.subset
  all n hn hname := by
    rcases List.mem_cons.1 hn with rfl | hn
    · exact h'.subset (h.all n (List.mem_singleton_self n) hname)
    · exact h'.all n hn hname
  fresh n hn := (h'.fresh n hn).elim (h.fresh n) .inr

/-- What is placed while a node is on the way down can be followed by that node. -/
theorem Places.snoc {inputs : Names} (h : g.Places (path ++ [node]) placed inputs out)
    (hinputs : g.find? node = some inputs) (hpath : node ∉ path) (hplaced : node ∉ placed) :
    g.Places path placed [node] (out ++ [node]) where
  inOrder := by
    refine h.inOrder.snoc (mem_names_of_find? hinputs) (fun hnode ↦ ?_) fun b hb ↦
      h.all b (next_of_find? hinputs ▸ hb)
    rcases h.fresh node hnode with hnode | ⟨hnode, -⟩
    · exact hplaced hnode
    · exact hnode (List.mem_append_right _ (List.mem_singleton_self _))
  subset := List.subset_append_of_subset_left _ h.subset
  all n hn _ := List.mem_append_right _ hn
  fresh n hn := by
    rcases List.mem_append.1 hn with hn | hn
    · exact (h.fresh n hn).imp_right fun ⟨hn, hname⟩ ↦
        ⟨fun hmem ↦ hn (List.mem_append_left _ hmem), hname⟩
    · obtain rfl := List.mem_singleton.1 hn
      exact .inr ⟨hpath, mem_names_of_find? hinputs⟩

/-- A node that is not placed yet and not on the way down is placed behind what it leads to. -/
theorem place_of_find? {inputs : Names} (hplaced : ¬placed.contains node) (hpath : node ∉ path)
    (hinputs : g.find? node = some inputs) :
    g.place path placed node = (g.placeAll (path ++ [node]) placed inputs).map (· ++ [node]) := by
  rw [place, if_neg hplaced, dif_neg hpath]
  split
  · rename_i hnone
    rw [hinputs] at hnone
    cases hnone
  · rename_i inputs' hinputs'
    obtain rfl : inputs' = inputs := Option.some.inj (hinputs'.symm.trans hinputs)
    rfl

/-- A name that is no node needs no place. -/
theorem place_of_find?_none (hplaced : ¬placed.contains node) (hpath : node ∉ path)
    (hnone : g.find? node = none) : g.place path placed node = .ok placed := by
  rw [place, if_neg hplaced, dif_neg hpath]
  split
  · rfl
  · rename_i inputs hinputs
    rw [hnone] at hinputs
    cases hinputs

/-- **Placing some nodes places them.** -/
theorem placeAll_spec (hplaced : g.Placed placed) (h : g.placeAll path placed nodes = .ok out) :
    g.Places path placed nodes out := by
  refine (place.mutual_induct g
    (fun path placed node ↦ ∀ out, g.Placed placed → g.place path placed node = .ok out →
      g.Places path placed [node] out)
    (fun path placed nodes ↦ ∀ out, g.Placed placed → g.placeAll path placed nodes = .ok out →
      g.Places path placed nodes out)
    ?placed ?cycle ?noNode ?node ?nil ?cons ?error).2 path placed nodes out hplaced h
  case placed =>
    intro path placed node hmem out hplaced h
    rw [place, if_pos hmem] at h
    obtain rfl := Except.ok.inj h
    exact .refl hplaced fun n hn _ ↦ by simpa [List.mem_singleton.1 hn] using hmem
  case cycle =>
    intro path placed node hmem hpath out hplaced h
    rw [place, if_neg hmem, dif_pos hpath] at h
    cases h
  case noNode =>
    intro path placed node hmem hpath hnone out hplaced h
    rw [place_of_find?_none hmem hpath hnone] at h
    obtain rfl := Except.ok.inj h
    refine .refl hplaced fun n hn hname ↦ ?_
    rw [List.mem_singleton.1 hn] at hname
    exact absurd hname (Table.find?_eq_none_iff.1 hnone)
  case node =>
    intro path placed node hmem hpath inputs hinputs ih out hplaced h
    rw [place_of_find? hmem hpath hinputs] at h
    cases hall : g.placeAll (path ++ [node]) placed inputs with
    | error cycle =>
      rw [hall] at h
      cases h
    | ok out' =>
      rw [hall] at h
      obtain rfl := Except.ok.inj h
      exact (ih out' hplaced hall).snoc hinputs hpath (by simpa using hmem)
  case nil =>
    intro path placed out hplaced h
    rw [placeAll] at h
    obtain rfl := Except.ok.inj h
    exact .refl hplaced (by simp)
  case cons =>
    intro path placed node nodes more hnode ih ih' out hplaced h
    rw [placeAll, hnode] at h
    have hfirst := ih more hplaced hnode
    exact hfirst.trans (ih' out hfirst.inOrder h)
  case error =>
    intro path placed node nodes cycle hnode ih out hplaced h
    rw [placeAll, hnode] at h
    cases h

theorem order_spec (h : g.order = .ok order) : g.Places [] [] g.names order :=
  placeAll_spec .nil h

/-- **The order has the nodes of the graph.** -/
theorem mem_order_iff (h : g.order = .ok order) : node ∈ order ↔ node ∈ g.names :=
  ⟨fun hn ↦ (((order_spec h).fresh node hn).resolve_left List.not_mem_nil).2,
    fun hn ↦ (order_spec h).all node hn hn⟩

theorem order_nodup (h : g.order = .ok order) : order.Nodup := (order_spec h).inOrder.nodup

/-- **No node leads to one that comes later.** -/
theorem order_pairwise (h : g.order = .ok order) : order.Pairwise fun a b ↦ b ∉ g.next a :=
  (order_spec h).inOrder.pairwise

theorem order_irrefl (h : g.order = .ok order) (hnode : node ∈ order) : node ∉ g.next node :=
  (order_spec h).inOrder.irrefl node hnode

end Graph
end ReactiveForm
