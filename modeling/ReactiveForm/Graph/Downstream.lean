import ReactiveForm.Table

/-!
# Graphs of names, and what is downstream of a name

A graph is a table of names: each node with the set of the nodes its edges lead to.  `downstream`
collects what a node leads to over any number of edges.  The node it starts from is left out, also
where a cycle leads back to it.

The search keeps the nodes it has reached and a queue of those it has not yet looked behind.  A
step either reaches nodes for the first time, of which there are finitely many, or shortens the
queue.
-/

set_option autoImplicit false
namespace ReactiveForm

/-- **A graph**: of each node, the set of nodes that its edges lead to. -/
abbrev Graph := Table Names

namespace Graph

/-- The nodes that a node's edges lead to. -/
def next (g : Graph) (node : String) : Names := (g.find? node).getD []

/-- Adds an edge. -/
def connect (g : Graph) (source target : String) : Graph :=
  g.insert source (Names.insert target (g.next source))

/-- All nodes that an edge leads to. -/
def targets (g : Graph) : List String := g.flatMap (·.2)

theorem mem_targets_of_mem_next {g : Graph} {node target : String} (h : target ∈ g.next node) :
    target ∈ g.targets := by
  unfold next at h
  cases hf : g.find? node with
  | none => simp [hf] at h
  | some ns =>
    simp only [hf, Option.getD_some] at h
    obtain ⟨l₁, l₂, rfl, -⟩ := List.lookup_eq_some_iff.1 hf
    simp [targets, h]

end Graph

/-- Fewer elements pass a stricter test, if one that passes the laxer test fails it. -/
private theorem length_filter_lt {α : Type} {p q : α → Bool} {a : α} (hpq : ∀ c, p c → q c)
    (hq : q a) (hp : ¬p a) {l : List α} (ha : a ∈ l) :
    (l.filter p).length < (l.filter q).length := by
  have hle : ∀ l : List α, (l.filter p).length ≤ (l.filter q).length := fun l ↦ by
    simpa only [← List.countP_eq_length_filter] using List.countP_mono_left fun c _ ↦ hpq c
  induction l with
  | nil => simp at ha
  | cons c l ih =>
    rcases List.mem_cons.1 ha with rfl | ha
    · have := hle l
      simp only [List.filter_cons, hq, hp, if_true, Bool.false_eq_true, if_false, List.length_cons]
      omega
    · cases hpc : p c
      · have := ((List.sublist_cons_self c l).filter q).length_le
        simpa [List.filter_cons, hpc] using Nat.lt_of_lt_of_le (ih ha) this
      · simpa [List.filter_cons, hpc, hpq c hpc] using ih ha

/-- Of the candidates that are not in a set, fewer are left after the set has grown by one of
them. -/
theorem length_filter_notMem_lt {candidates set grown : List String} {a : String}
    (hgrown : ∀ b ∈ set, b ∈ grown) (hc : a ∈ candidates) (hs : a ∉ set) (hg : a ∈ grown) :
    (candidates.filter fun c ↦ !grown.contains c).length <
      (candidates.filter fun c ↦ !set.contains c).length :=
  length_filter_lt (fun c h ↦ by simpa using fun h' ↦ by simp [hgrown c h'] at h)
    (by simpa using hs) (by simpa using hg) hc

namespace Graph

/-- The nodes reached in the end, given those reached so far and those not yet looked behind. -/
def reach (g : Graph) (start : String) (reached queue : List String) : List String :=
  match queue with
  | [] => reached
  | node :: queue =>
    let fresh := (g.next node).filter fun n ↦ n != start && !reached.contains n
    if fresh.isEmpty then reach g start reached queue
    else reach g start (reached ++ fresh) (queue ++ fresh)
termination_by ((g.targets.filter fun n ↦ !reached.contains n).length, queue.length)
decreasing_by
  · exact Prod.Lex.right _ (Nat.lt_succ_self _)
  · rename_i hfresh
    obtain ⟨n, hn⟩ := List.exists_mem_of_ne_nil fresh (by simpa using hfresh)
    have hn' := List.mem_filter.1 hn
    simp only [Bool.and_eq_true, Bool.not_eq_true', List.contains_eq_mem,
      decide_eq_false_iff_not] at hn'
    exact Prod.Lex.left _ _ (length_filter_notMem_lt (fun _ hb ↦ List.mem_append_left _ hb)
      (mem_targets_of_mem_next hn'.1) hn'.2.2 (List.mem_append_right _ hn))

/-- **The set of nodes downstream of a node**, itself left out. -/
def downstream (g : Graph) (node : String) : Names := Names.ofList (g.reach node [] [node])

end Graph

end ReactiveForm
