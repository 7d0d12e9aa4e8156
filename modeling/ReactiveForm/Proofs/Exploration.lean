import Mathlib.Data.List.Basic
import ReactiveForm.Proofs.Downstream

/-!
# The search for what is downstream ends

`Graph.Search` is the search behind `Graph.downstream`, look by look: it looks behind the first node
of the queue, and reaches and queues what it has not reached before.  On a cycle it could go on
forever, if it did not keep what it has reached.

Each node comes into the queue once, when it is reached, so that the looks are as many as the nodes
that are reached, and one for the start (`Search.add_length_eq`).  And the edges lead to so many
nodes only: whatever is reached is no longer among those that are left (`Search.length_le`).
-/

set_option autoImplicit false
namespace ReactiveForm
namespace Graph

variable {g : Graph} {start node : String} {reached queue fresh result : List String} {n : Nat}

/-! ## One look -/

/-- **The nodes that are reached for the first time by looking behind a node**: those that its edges
lead to, without the start and those that have been reached before. -/
def firstReached (g : Graph) (start : String) (reached : List String) (node : String) :
    List String :=
  (g.next node).filter fun n ↦ n != start && !reached.contains n

/-- The nodes that edges lead to and that have not been reached. -/
def unreached (g : Graph) (reached : List String) : List String :=
  g.targets.filter fun n ↦ !reached.contains n

theorem next_sublist_targets (g : Graph) (node : String) : (g.next node).Sublist g.targets := by
  rw [next]
  cases hfind : g.find? node with
  | none => exact List.nil_sublist _
  | some others =>
    obtain ⟨before, behind, rfl, -⟩ := List.lookup_eq_some_iff.1 hfind
    rw [targets, List.flatMap_append, List.flatMap_cons]
    exact (List.sublist_append_left others _).trans (List.sublist_append_right _ _)

/-- **What is reached by a look is no longer unreached.** -/
theorem length_firstReached_add_le (g : Graph) (start : String) (reached : List String)
    (node : String) :
    (g.firstReached start reached node).length +
        (g.unreached (reached ++ g.firstReached start reached node)).length ≤
      (g.unreached reached).length := by
  have hmem : ∀ n ∈ g.firstReached start reached node, n ∉ reached := fun n hn ↦ by
    simpa using (Bool.and_eq_true_iff.1 (List.mem_filter.1 hn).2).2
  have htargets : (g.firstReached start reached node).Sublist g.targets :=
    List.filter_sublist.trans (g.next_sublist_targets node)
  generalize g.firstReached start reached node = fresh at hmem htargets
  have hfresh : fresh.Sublist ((g.unreached reached).filter fun n ↦ fresh.contains n) := by
    have hself : fresh.filter (fun n ↦ fresh.contains n && !reached.contains n) = fresh :=
      List.filter_eq_self.2 fun n hn ↦ by simp [hn, hmem n hn]
    rw [unreached, List.filter_filter]
    have hsub := htargets.filter fun n ↦ fresh.contains n && !reached.contains n
    rwa [hself] at hsub
  have hrest : g.unreached (reached ++ fresh) =
      (g.unreached reached).filter fun n ↦ !fresh.contains n := by
    rw [unreached, unreached, List.filter_filter]
    refine List.filter_congr fun n _ ↦ ?_
    rw [List.contains_append, Bool.not_or, Bool.and_comm]
  calc fresh.length + (g.unreached (reached ++ fresh)).length
      ≤ ((g.unreached reached).filter fun n ↦ fresh.contains n).length +
          ((g.unreached reached).filter fun n ↦ !fresh.contains n).length := by
        rw [hrest]
        exact Nat.add_le_add_right hfresh.length_le _
    _ = (g.unreached reached).length := (List.length_eq_length_filter_add _).symm

/-! ## The whole search -/

/-- **A search, look by look**: as long as there is a node in the queue, the nodes that are first
reached by looking behind it are added to those that have been reached, and to the queue. -/
inductive Search (g : Graph) (start : String) :
    Nat → List String → List String → List String → Prop where
  | done {reached : List String} : Search g start 0 reached [] reached
  | look {n : Nat} {node : String} {fresh reached queue result : List String}
      (fresh_eq : fresh = g.firstReached start reached node)
      (later : Search g start n (reached ++ fresh) (queue ++ fresh) result) :
      Search g start (n + 1) reached (node :: queue) result

/-- **The search ends**, with the nodes that are reached. -/
theorem exists_search_reach (g : Graph) (start : String) (reached queue : List String) :
    ∃ n, g.Search start n reached queue (g.reach start reached queue) := by
  induction reached, queue using reach.induct g start with
  | case1 reached =>
    rw [reach]
    exact ⟨0, .done⟩
  | case2 reached node queue fresh hfresh ih =>
    obtain ⟨n, hn⟩ := ih
    have hnil : fresh = [] := List.isEmpty_iff.1 hfresh
    rw [reach, if_pos hfresh]
    exact ⟨n + 1, .look hnil.symm (by rwa [List.append_nil, List.append_nil])⟩
  | case3 reached node queue fresh hfresh ih =>
    obtain ⟨n, hn⟩ := ih
    rw [reach, if_neg hfresh]
    exact ⟨n + 1, .look rfl hn⟩

/-- **Each node is looked behind once**: those in the queue, and those that are still reached. -/
theorem Search.add_length_eq (h : g.Search start n reached queue result) :
    n + reached.length = queue.length + result.length := by
  induction h with
  | done => rfl
  | look fresh_eq _ ih =>
    rw [List.length_append, List.length_append] at ih
    rw [List.length_cons]
    omega

/-- What is reached in the end was reached before or is one of the nodes that were left. -/
theorem Search.length_le (h : g.Search start n reached queue result) :
    result.length ≤ reached.length + (g.unreached reached).length := by
  induction h with
  | done => exact Nat.le_add_right _ _
  | @look _ node fresh reached _ _ fresh_eq _ ih =>
    subst fresh_eq
    have hleft := g.length_firstReached_add_le start reached node
    rw [List.length_append] at ih
    omega

/-- **The search ends and finds what is downstream.**  After no more looks than there are edges, and
one, nothing is left in the queue; and the nodes that have been reached are, in order and each of
them once, those that are not the start and that one edge or more lead to from there. -/
theorem downstream_exact (g : Graph) (node : String) :
    (∃ n reached, g.Search node n [] [node] reached ∧ n = reached.length + 1 ∧
      n ≤ g.targets.length + 1 ∧ g.downstream node = Names.ofList reached) ∧
    (g.downstream node).Pairwise (· < ·) ∧
    ∀ other, other ∈ g.downstream node ↔ other ≠ node ∧ g.Leads node other := by
  obtain ⟨n, hsearch⟩ := g.exists_search_reach node [] [node]
  have hlooks := hsearch.add_length_eq
  have hreached := hsearch.length_le
  have hedges : (g.unreached []).length ≤ g.targets.length := List.length_filter_le _ _
  rw [List.length_nil, List.length_singleton] at hlooks
  rw [List.length_nil] at hreached
  exact ⟨⟨n, _, hsearch, by omega, by omega, rfl⟩, Names.pairwise_ofList _,
    fun other ↦ mem_downstream_iff⟩

end Graph
end ReactiveForm
