import Mathlib.Logic.Relation
import ReactiveForm.Graph.Downstream
import ReactiveForm.Proofs.Table

/-!
# What is downstream

The search behind `Graph.downstream` finds what it is looking for: a node is downstream of another
one exactly if it is a different node and some edges, one at least, lead there
(`mem_downstream_iff`).  This holds of every graph, whatever cycles it has.

One half is that every node that is reached was led to.  The other half rests on what the search
keeps true of its two lists: a node that has been looked behind leads to reached nodes only.  When
the queue is empty, that is every node.

A graph that is made edge by edge is in order, and then its nodes and edges are all there is to it
(`Sorted.ext`).
-/

set_option autoImplicit false
namespace ReactiveForm
namespace Graph

variable {g : Graph} {start node other : String} {reached queue : List String}

/-! ## Edges -/

section

variable {source target : String} {paths : List String}

theorem mem_next_connect : other ∈ (g.connect source target).next node ↔
    node = source ∧ other = target ∨ other ∈ g.next node := by
  rw [next, connect, Table.find?_insert]
  by_cases h : node = source
  · subst h
    simp [Names.mem_insert]
  · simp [h, next]

theorem mem_next_connectAll :
    other ∈ (paths.foldl (fun (g : Graph) path ↦ g.connect path target) g).next node ↔
      node ∈ paths ∧ other = target ∨ other ∈ g.next node := by
  induction paths generalizing g with
  | nil => simp
  | cons path paths ih =>
    rw [List.foldl_cons, ih, mem_next_connect, List.mem_cons, or_and_right, or_left_comm, or_assoc]

theorem mem_names_connectAll :
    node ∈ Table.names (paths.foldl (fun (g : Graph) path ↦ g.connect path target) g) ↔
      node ∈ paths ∨ node ∈ Table.names g := by
  induction paths generalizing g with
  | nil => simp
  | cons path paths ih =>
    rw [List.foldl_cons, ih, connect, Table.mem_names_insert, List.mem_cons, or_left_comm, or_assoc]

end

/-! ## Graphs in order -/

/-- **A graph in order**: its nodes ascend, and so do those that each of them leads to. -/
structure Sorted (g : Graph) : Prop where
  nodes : Table.Ordered g
  next (node : String) : (g.next node).Pairwise (· < ·)

theorem Sorted.nil : Sorted ([] : Graph) where
  nodes := Table.ordered_nil
  next _ := List.Pairwise.nil

theorem Sorted.connect (h : g.Sorted) (source target : String) :
    (g.connect source target).Sorted where
  nodes := h.nodes.insert _ _
  next node := by
    rw [Graph.next, Graph.connect, Table.find?_insert]
    split
    · exact Names.pairwise_insert (h.next source) target
    · exact h.next node

/-- **A graph in order is known by its nodes and its edges.** -/
theorem Sorted.ext {g' : Graph} (hg : g.Sorted) (hg' : g'.Sorted)
    (hnodes : ∀ node, node ∈ Table.names g ↔ node ∈ Table.names g')
    (hedges : ∀ node other, other ∈ g.next node ↔ other ∈ g'.next node) : g = g' := by
  refine hg.nodes.ext hg'.nodes fun node ↦ ?_
  have hnext : g.next node = g'.next node :=
    Names.ext (hg.next node) (hg'.next node) (hedges node)
  have hhas : (Table.find? g node).isSome = (Table.find? g' node).isSome :=
    Bool.eq_iff_iff.2 (by simpa only [← Table.has_iff_mem_names, Table.has] using hnodes node)
  rw [Graph.next, Graph.next] at hnext
  cases hfind : Table.find? g node <;> cases hfind' : Table.find? g' node <;> simp_all

/-! ## What leads where -/

/-- **A node leads to another one** over one or more edges. -/
def Leads (g : Graph) : String → String → Prop := Relation.TransGen fun a b ↦ b ∈ g.next a

/-- Whatever is reached was reached before, or the queue leads there. -/
theorem leads_of_mem_reach (h : node ∈ g.reach start reached queue) :
    node ∈ reached ∨ (node ≠ start ∧ ∃ n ∈ queue, g.Leads n node) := by
  induction reached, queue using reach.induct g start with
  | case1 reached =>
    rw [reach] at h
    exact .inl h
  | case2 reached n queue fresh hfresh ih =>
    rw [reach, if_pos hfresh] at h
    exact (ih h).imp_right fun ⟨hne, m, hm, hlead⟩ ↦ ⟨hne, m, List.mem_cons_of_mem _ hm, hlead⟩
  | case3 reached n queue fresh hfresh ih =>
    rw [reach, if_neg hfresh] at h
    have hedge : ∀ m ∈ fresh, m ∈ g.next n ∧ m ≠ start := by
      intro m hm
      obtain ⟨hnext, htest⟩ := List.mem_filter.1 hm
      exact ⟨hnext, by simpa using (Bool.and_eq_true_iff.1 htest).1⟩
    rcases ih h with h | ⟨hne, m, hm, hlead⟩
    · rcases List.mem_append.1 h with h | h
      · exact .inl h
      · exact .inr ⟨(hedge node h).2, n, List.mem_cons_self, .single (hedge node h).1⟩
    · rcases List.mem_append.1 hm with hm | hm
      · exact .inr ⟨hne, m, List.mem_cons_of_mem _ hm, hlead⟩
      · exact .inr ⟨hne, n, List.mem_cons_self, .head (hedge m hm).1 hlead⟩

/-- A node that was reached, or from which the search started, leads to reached nodes only, unless
it is still in the queue. -/
def Explored (g : Graph) (start : String) (reached queue : List String) : Prop :=
  ∀ a, a = start ∨ a ∈ reached → a ∉ queue → ∀ b ∈ g.next a, b ≠ start → b ∈ reached

theorem Explored.reach (h : g.Explored start reached queue) :
    g.Explored start (g.reach start reached queue) [] := by
  induction reached, queue using reach.induct g start with
  | case1 reached => rwa [Graph.reach]
  | case2 reached n queue fresh hfresh ih =>
    rw [Graph.reach, if_pos hfresh]
    refine ih fun a ha haq b hb hne ↦ ?_
    by_cases han : a = n
    · -- nothing behind the first of the queue is new
      subst han
      have hfresh' : ∀ m ∈ g.next a, m ≠ start → m ∈ reached := by
        simpa [fresh, List.filter_eq_nil_iff] using hfresh
      exact hfresh' b hb hne
    · exact h a ha (by simp [han, haq]) b hb hne
  | case3 reached n queue fresh hfresh ih =>
    rw [Graph.reach, if_neg hfresh]
    refine ih fun a ha haq b hb hne ↦ ?_
    rw [List.mem_append, not_or] at haq
    have ha' : a = start ∨ a ∈ reached := ha.imp_right fun ha ↦
      (List.mem_append.1 ha).resolve_right haq.2
    by_cases hreached : b ∈ reached
    · exact List.mem_append_left _ hreached
    · by_cases han : a = n
      · subst han
        exact List.mem_append_right _ (List.mem_filter.2 ⟨hb, by simp [hne, hreached]⟩)
      · exact absurd (h a ha' (by simp [han, haq.1]) b hb hne) hreached

/-- **A node is downstream of another one if it is not that node and edges lead to it.** -/
theorem mem_downstream_iff : other ∈ g.downstream node ↔ other ≠ node ∧ g.Leads node other := by
  rw [downstream, Names.mem_ofList]
  constructor
  · intro h
    obtain ⟨hne, n, hn, hlead⟩ := (leads_of_mem_reach h).resolve_left List.not_mem_nil
    exact ⟨hne, List.mem_singleton.1 hn ▸ hlead⟩
  · rintro ⟨hne, hlead⟩
    have hinitial : g.Explored node [] [node] := fun a ha haq ↦
      absurd (List.mem_singleton.2 (ha.resolve_right List.not_mem_nil)) haq
    have hfinal := hinitial.reach
    suffices h : other = node ∨ other ∈ g.reach node [] [node] from h.resolve_left hne
    clear hne
    induction hlead with
    | single hedge =>
      exact Decidable.or_iff_not_imp_left.2 (hfinal _ (.inl rfl) List.not_mem_nil _ hedge)
    | tail _ hedge ih =>
      exact Decidable.or_iff_not_imp_left.2 (hfinal _ ih List.not_mem_nil _ hedge)

/-- **More edges lead to a node from nowhere else**, if none of them goes there, and where they end
nothing led there. -/
theorem leads_iff_of_next {g' : Graph} (hsub : ∀ a b, b ∈ g.next a → b ∈ g'.next a)
    (hnew : ∀ a b, b ∈ g'.next a → b ∉ g.next a → b ≠ node ∧ ¬g.Leads b node) :
    g'.Leads start node ↔ g.Leads start node := by
  refine ⟨fun h ↦ ?_, Relation.TransGen.mono hsub _ _⟩
  induction h using Relation.TransGen.head_induction_on with
  | @single a hedge =>
    by_cases hold : node ∈ g.next a
    · exact .single hold
    · exact absurd rfl (hnew a node hedge hold).1
  | @head a b hedge _ ih =>
    by_cases hold : b ∈ g.next a
    · exact .head hold ih
    · exact absurd ih (hnew a b hedge hold).2

/-- What is downstream of a downstream node is downstream, the node itself apart. -/
theorem downstream_trans {source : String} (hnode : node ∈ g.downstream source)
    (hother : other ∈ g.downstream node) (hne : other ≠ source) : other ∈ g.downstream source :=
  mem_downstream_iff.2 ⟨hne, (mem_downstream_iff.1 hnode).2.trans (mem_downstream_iff.1 hother).2⟩

end Graph
end ReactiveForm
