import Pipewright.Graph.Basic

/-!
# Execution order by recursion

The execution order told without a state that is stepped through.  To visit a node is to visit all
nodes that it has links to, one after the other, and to put the node after them; a node that stands
in the order already is not visited again, and a node that is being visited must not be met.

* `Graph.visit`: the order after the visit of a node.
* `Graph.visitedOrder`: the order after the visits of all execution nodes.
-/

namespace Pipewright

namespace Graph

variable {g : Graph} {path : List Node} {node : Node}

/-- The ids of the nodes that are being visited, from the one with the given id on, and that id
again.  The node that was met first comes last in `path`. -/
def circleOf (path : List Node) (id : String) : List String :=
  ((path.reverse.map Node.id).dropWhile (· ≠ id)) ++ [id]

/-- The nodes that are not being visited. -/
def resting (g : Graph) (path : List Node) : List Node :=
  g.nodes.filter fun n => n.id ∉ path.map Node.id

/-- A node that is visited rests no longer. -/
theorem length_resting_lt (hnode : node ∈ g.nodes) (hpath : node.id ∉ path.map Node.id) :
    (g.resting (node :: path)).length < (g.resting path).length := by
  have hfilter : g.resting (node :: path) = (g.resting path).filter fun n => n.id ≠ node.id := by
    rw [resting, resting, List.filter_filter]
    exact List.filter_congr fun n _ => by simp
  rw [hfilter, List.length_filter_lt_length_iff_exists]
  exact ⟨node, List.mem_filter.2 ⟨hnode, by simpa using hpath⟩, by simp⟩

/-- The order after the visit of a node of the graph.  `path` holds the nodes that are being
visited, the latest one first. -/
def visit (g : Graph) (path order : List Node) (node : Node) (_ : node ∈ g.nodes) :
    Except Error (List Node) :=
  if node.id ∈ order.map Node.id then .ok order
  else if _ : node.id ∈ path.map Node.id then
    .error (.cyclicGraph node.id (circleOf path node.id))
  else do
    let above ← node.links.foldlM (fun order link =>
      match hnext : g.follow node link with
      | .error e => .error e
      | .ok next => g.visit (node :: path) order next (mem_of_follow hnext)) order
    return above ++ [node]
termination_by (g.resting path).length
decreasing_by exact length_resting_lt ‹_› ‹_›

/-- The order after the visits of all execution nodes, in the order of the document. -/
def visitedOrder (g : Graph) : Except Error (List Node) :=
  g.executionNodes.attach.foldlM (fun order root =>
    g.visit [] order root.1 (List.mem_filter.1 root.2).1) []

end Graph

end Pipewright
