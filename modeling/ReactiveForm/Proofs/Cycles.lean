import Mathlib.Data.List.Chain
import Mathlib.Logic.Relation
import ReactiveForm.Proofs.Order

/-!
# Cycles, and when there is an order

The nodes of a graph can be put in an order, each behind those it reads, exactly if no node reads
itself, directly or over others; and `Graph.order` decides which of the two it is
(`order_decides`).  It gives such an order where there is one.  Where there is none it gives the
proof: a path of nodes that each read the next one and that ends where it starts.

`Proofs/Order.lean` has what an order that is found is like.  The other half is here: what is kept
on the way down is a path of the graph, and goes on to each node that has to be placed
(`Descends`); so a node that is met again on the way down closes a cycle.
-/

set_option autoImplicit false
namespace ReactiveForm
namespace Graph

variable {g : Graph} {path placed nodes sorted cycle : List String} {node input : String}

/-- **A node reads another one**: an edge between two nodes of the graph.  Names that an edge leads
to without being nodes are no part of this. -/
def Reads (g : Graph) (node input : String) : Prop :=
  node ∈ g.names ∧ input ∈ g.next node ∧ input ∈ g.names

/-- **No node reads itself**, directly or over others. -/
def Acyclic (g : Graph) : Prop := ∀ node, ¬Relation.TransGen g.Reads node node

/-- **An order of the nodes**: each is there once, behind all nodes it reads. -/
structure Sorts (g : Graph) (sorted : List String) : Prop where
  nodup : sorted.Nodup
  mem_iff : ∀ node, node ∈ sorted ↔ node ∈ g.names
  inputs_before : ∀ before node after, sorted = before ++ node :: after →
    ∀ input, g.Reads node input → input ∈ before

/-- **A cycle**, written down from a node to the same node again: each entry reads the next one. -/
structure IsCycle (g : Graph) (cycle : List String) : Prop where
  closed : cycle.head? = cycle.getLast?
  two_le_length : 2 ≤ cycle.length
  reads : cycle.IsChain g.Reads

/-! ## An order leaves no cycle -/

/-- What a node reads stands before it. -/
theorem Sorts.idxOf_lt (h : g.Sorts sorted) (hreads : g.Reads node input) :
    sorted.idxOf input < sorted.idxOf node := by
  obtain ⟨before, after, hsorted⟩ := List.append_of_mem ((h.mem_iff node).2 hreads.1)
  have hinput := h.inputs_before before node after hsorted input hreads
  have hnode : node ∉ before := by
    have hnodup := h.nodup
    rw [hsorted, List.nodup_append] at hnodup
    exact fun hmem ↦ hnodup.2.2 node hmem node List.mem_cons_self rfl
  rw [hsorted, List.idxOf_append_of_mem hinput, List.idxOf_append_of_notMem hnode,
    List.idxOf_cons_self, Nat.add_zero]
  exact List.idxOf_lt_length_of_mem hinput

theorem Sorts.acyclic (h : g.Sorts sorted) : g.Acyclic := by
  intro node hcycle
  have hdescends : ∀ input, Relation.TransGen g.Reads node input →
      sorted.idxOf input < sorted.idxOf node := by
    intro input hlead
    induction hlead with
    | single hreads => exact h.idxOf_lt hreads
    | tail _ hreads ih => exact Nat.lt_trans (h.idxOf_lt hreads) ih
  exact Nat.lt_irrefl _ (hdescends node hcycle)

/-- **What is found is an order of the nodes.** -/
theorem sorts_of_order_eq_ok (h : g.order = .ok sorted) : g.Sorts sorted where
  nodup := order_nodup h
  mem_iff _ := mem_order_iff h
  inputs_before before node after hsorted input hreads := by
    have hmem : input ∈ before ++ node :: after := hsorted ▸ (mem_order_iff h).2 hreads.2.2
    rcases List.mem_append.1 hmem with hbefore | hafter
    · exact hbefore
    · have hpairwise := order_pairwise h
      rw [hsorted, List.pairwise_append, List.pairwise_cons] at hpairwise
      rcases List.mem_cons.1 hafter with rfl | hafter
      · exact absurd hreads.2.1 (order_irrefl h ((mem_order_iff h).2 hreads.1))
      · exact absurd hreads.2.1 (hpairwise.2.1.1 input hafter)

/-! ## A cycle that is met -/

theorem IsCycle.not_acyclic (h : g.IsCycle cycle) : ¬g.Acyclic := by
  match cycle, h with
  | a :: b :: rest, ⟨hclosed, _, hreads⟩ =>
    rw [List.isChain_cons_cons] at hreads
    have hlast : (b :: rest).getLast (List.cons_ne_nil b rest) = a := by
      rw [List.head?_cons, List.getLast?_cons_cons,
        List.getLast?_eq_some_getLast (List.cons_ne_nil b rest)] at hclosed
      exact (Option.some.inj hclosed).symm
    have hback := List.relationReflTransGen_of_exists_isChain_cons rest hreads.2 hlast
    exact fun hacyclic ↦ hacyclic a (.head' hreads.1 hback)

/-- **The way down is a path of the graph**, and leads on to the nodes that are to be placed. -/
structure Descends (g : Graph) (path nodes : List String) : Prop where
  subset : path ⊆ g.names
  reads : ∀ node ∈ nodes, node ∈ g.names → (path ++ [node]).IsChain g.Reads

theorem Descends.start (nodes : List String) : g.Descends [] nodes :=
  ⟨List.nil_subset _, fun node _ _ ↦ List.isChain_singleton node⟩

theorem Descends.mono {fewer : List String} (h : g.Descends path nodes) (hfewer : fewer ⊆ nodes) :
    g.Descends path fewer :=
  ⟨h.subset, fun node hnode ↦ h.reads node (hfewer hnode)⟩

/-- The way down goes on over a node to what that node reads. -/
theorem Descends.enter {inputs : Names} (h : g.Descends path [node])
    (hinputs : g.find? node = some inputs) : g.Descends (path ++ [node]) inputs where
  subset := List.append_subset.2 ⟨h.subset, by simpa using mem_names_of_find? hinputs⟩
  reads input hinput hname := by
    have hnode := mem_names_of_find? hinputs
    refine (h.reads node List.mem_cons_self hnode).append (List.isChain_singleton input) ?_
    intro last hlast first hfirst
    obtain rfl : node = last := by simpa using hlast
    obtain rfl : input = first := by simpa using hfirst
    exact ⟨hnode, next_of_find? hinputs ▸ hinput, hname⟩

/-- A node that is met again on the way down closes a cycle. -/
theorem Descends.isCycle (h : g.Descends path [node]) (hnode : node ∈ path) :
    g.IsCycle (path.dropWhile (· != node) ++ [node]) := by
  obtain ⟨before, after, rfl, hbefore⟩ := List.eq_append_cons_of_mem hnode
  have hdrop : (before ++ node :: after).dropWhile (· != node) = node :: after := by
    have hother : ∀ other ∈ before, (other != node) = true := fun other hother ↦
      bne_iff_ne.2 (ne_of_mem_of_not_mem hother hbefore)
    rw [List.dropWhile_append_of_pos hother, List.dropWhile_cons_of_neg (by simp)]
  rw [hdrop]
  have hreads := h.reads node List.mem_cons_self (h.subset hnode)
  rw [List.append_assoc] at hreads
  refine ⟨?_, by simp, hreads.right_of_append⟩
  rw [List.getLast?_concat, List.cons_append, List.head?_cons]

/-- **What fails to be placed is reported with a cycle.** -/
theorem isCycle_of_placeAll (hdescends : g.Descends path nodes)
    (h : g.placeAll path placed nodes = .error cycle) : g.IsCycle cycle := by
  refine (place.mutual_induct g
    (fun path placed node ↦ ∀ cycle, g.Descends path [node] →
      g.place path placed node = .error cycle → g.IsCycle cycle)
    (fun path placed nodes ↦ ∀ cycle, g.Descends path nodes →
      g.placeAll path placed nodes = .error cycle → g.IsCycle cycle)
    ?placed ?cycle ?noNode ?node ?nil ?cons ?error).2 path placed nodes cycle hdescends h
  case placed =>
    intro path placed node hmem cycle _ h
    rw [place, if_pos hmem] at h
    cases h
  case cycle =>
    intro path placed node hmem hpath cycle hdescends h
    rw [place, if_neg hmem, dif_pos hpath] at h
    obtain rfl := Except.error.inj h
    exact hdescends.isCycle hpath
  case noNode =>
    intro path placed node hmem hpath hnone cycle _ h
    rw [place_of_find?_none hmem hpath hnone] at h
    cases h
  case node =>
    intro path placed node hmem hpath inputs hinputs ih cycle hdescends h
    rw [place_of_find? hmem hpath hinputs] at h
    cases hall : g.placeAll (path ++ [node]) placed inputs with
    | error inner =>
      rw [hall] at h
      obtain rfl := Except.error.inj h
      exact ih inner (hdescends.enter hinputs) hall
    | ok out =>
      rw [hall] at h
      cases h
  case nil =>
    intro path placed cycle _ h
    rw [placeAll] at h
    cases h
  case cons =>
    intro path placed node nodes more hnode ih ih' cycle hdescends h
    rw [placeAll, hnode] at h
    exact ih' cycle (hdescends.mono (List.subset_cons_self node nodes)) h
  case error =>
    intro path placed node nodes inner hnode ih cycle hdescends h
    rw [placeAll, hnode] at h
    obtain rfl := Except.error.inj h
    exact ih inner (hdescends.mono (by simp)) hnode

theorem isCycle_of_order_eq_error (h : g.order = .error cycle) : g.IsCycle cycle :=
  isCycle_of_placeAll (.start _) h

/-! ## The two outcomes -/

/-- **There is an order exactly if there is no cycle**, and whichever there is, is what is
returned. -/
theorem order_decides (g : Graph) :
    ((∃ sorted, g.order = .ok sorted) ↔ g.Acyclic) ∧
    (∀ sorted, g.order = .ok sorted → g.Sorts sorted) ∧
    ∀ cycle, g.order = .error cycle → g.IsCycle cycle := by
  refine ⟨⟨fun ⟨sorted, h⟩ ↦ (sorts_of_order_eq_ok h).acyclic, fun hacyclic ↦ ?_⟩,
    fun _ ↦ sorts_of_order_eq_ok, fun _ ↦ isCycle_of_order_eq_error⟩
  cases h : g.order with
  | ok sorted => exact ⟨sorted, rfl⟩
  | error cycle => exact absurd hacyclic (isCycle_of_order_eq_error h).not_acyclic

/-- Of two fields computed from each other there is no order, and they are the cycle that is found;
once one of them is computed from nothing, each field comes behind those it is computed from. -/
theorem order_decides_mutual :
    IsCycle [("a", ["b"]), ("b", ["a", "x"]), ("c", ["a"])] ["a", "b", "a"] ∧
      Sorts [("a", []), ("b", ["c", "x"]), ("c", ["a"])] ["a", "c", "b"] :=
  ⟨(order_decides [("a", ["b"]), ("b", ["a", "x"]), ("c", ["a"])]).2.2 _ (by cbv),
    (order_decides [("a", []), ("b", ["c", "x"]), ("c", ["a"])]).2.1 _ (by cbv)⟩

end Graph
end ReactiveForm
