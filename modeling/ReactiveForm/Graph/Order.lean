import ReactiveForm.Graph.Downstream

/-!
# Ordering computations

The computed fields of a form read each other, and each has to come after those it reads.  `Graph`
here has the computed fields as its nodes, and leads from each to what it reads; names that are no
nodes are read as well, but need no place in the order.

The order is found depth first: to place a node, place what it reads and then the node.  A node that
has to be placed while it is being placed closes a cycle, and the names on the way back to it are
what is reported.  The way down never meets a node twice, so its length bounds the recursion.
-/

set_option autoImplicit false
namespace ReactiveForm
namespace Graph

/-- The nodes of a graph that are not on the way down. -/
private def offPath (g : Graph) (path : List String) : List String :=
  g.names.filter fun n ↦ !path.contains n

private theorem length_offPath_lt {g : Graph} {path : List String} {node : String}
    {inputs : Names} (hnode : g.find? node = some inputs) (hpath : node ∉ path) :
    (g.offPath (path ++ [node])).length < (g.offPath path).length := by
  refine length_filter_notMem_lt (fun _ hb ↦ List.mem_append_left _ hb) ?_ hpath
    (List.mem_append_right _ (List.mem_singleton_self _))
  obtain ⟨l₁, l₂, rfl, -⟩ := List.lookup_eq_some_iff.1 hnode
  simp [Table.names]

mutual

/-- Places a node and what it needs behind those already placed, on the way down from `path`.  The
error is a cycle, whose first node is its last one as well. -/
def place (g : Graph) (path placed : List String) (node : String) :
    Except (List String) (List String) :=
  if placed.contains node then .ok placed
  else if _hpath : node ∈ path then .error (path.dropWhile (· != node) ++ [node])
  else
    match _hnode : g.find? node with
    | none => .ok placed
    | some inputs => (placeAll g (path ++ [node]) placed inputs).map (· ++ [node])
termination_by ((g.offPath path).length, 0, 0)
decreasing_by exact Prod.Lex.left _ _ (length_offPath_lt _hnode _hpath)

/-- Places some nodes, one after the other. -/
def placeAll (g : Graph) (path placed : List String) :
    List String → Except (List String) (List String)
  | [] => .ok placed
  | node :: nodes =>
    match place g path placed node with
    | .ok placed => placeAll g path placed nodes
    | .error cycle => .error cycle
termination_by nodes => ((g.offPath path).length, 1, nodes.length)
decreasing_by
  · exact Prod.Lex.right _ (Prod.Lex.left _ _ (by omega))
  · exact Prod.Lex.right _ (Prod.Lex.right _ (by simp))

end

/-- **The nodes in an order in which each comes after those it leads to**, or a cycle. -/
def order (g : Graph) : Except (List String) (List String) := placeAll g [] [] g.names

end Graph
end ReactiveForm
