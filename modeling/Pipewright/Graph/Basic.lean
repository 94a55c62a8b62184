import Pipewright.Document.Basic
import Pipewright.Error
import Pipewright.Keyed

/-!
# The graph of a document

The nodes of all pipelines of a document make one graph, whose edges are the links.  A link
carries data when it leaves the data outlet of the node it leads to.

* `Graph`, `Graph.ofDocument`: the nodes, and the name of the data outlet.
* `Graph.node?`, `Graph.follow`: looking up nodes and following links.
* `Graph.linkTable`: the nodes that have links to an id, under that id.
* `Graph.downstream`, `Graph.dataSources`: the neighbours of a node.
* `Graph.distinct`: nodes without repetitions, of which each id is kept once.
-/

namespace Pipewright

/-- The nodes of a document with the outlet that marks links as carrying data. -/
structure Graph where
  nodes : List Node
  dataOutlet : String
deriving Repr

namespace Graph

/-- The outlet that marks links as carrying data, unless another one is given. -/
def defaultOutlet : String := "outPort"

/-- The graph of a document. -/
def ofDocument (d : Document) (dataOutlet : String) : Graph := ⟨d.nodes, dataOutlet⟩

/-- The node with an id. -/
def node? (g : Graph) (id : String) : Option Node :=
  g.nodes.find? fun n => n.id = id

/-- The node that is found has the id. -/
theorem id_of_node? {g : Graph} {id : String} {n : Node} (h : g.node? id = some n) : n.id = id := by
  simpa using List.find?_some h

/-- The node that is found is one of the graph. -/
theorem mem_of_node? {g : Graph} {id : String} {n : Node} (h : g.node? id = some n) : n ∈ g.nodes :=
  List.mem_of_find?_eq_some h

/-- No node is found when no node has the id. -/
theorem node?_eq_none_iff {g : Graph} {id : String} :
    g.node? id = none ↔ ∀ n ∈ g.nodes, n.id ≠ id := by
  simp [node?]

/-- The execution nodes, in the order of the document. -/
def executionNodes (g : Graph) : List Node :=
  g.nodes.filter Node.isExecution

/-- The node that a link of `source` leads to. -/
def follow (g : Graph) (source : Node) (link : Link) : Except Error Node :=
  match g.node? link.target with
  | some n => .ok n
  | none => .error (.danglingReference source.id link.target)

/-- What a link leads to is a node of the graph. -/
theorem mem_of_follow {g : Graph} {source n : Node} {link : Link} (h : g.follow source link = .ok n) :
    n ∈ g.nodes := by
  rw [follow] at h
  split at h
  · next hnode =>
    cases h
    exact mem_of_node? hnode
  · cases h

/-- Ids of nodes by the id that they have a link to. -/
abbrev LinkTable := List (String × List String)

/-- The ids that stand in the table under an id. -/
def LinkTable.under (table : LinkTable) (id : String) : List String :=
  (table.lookup id).getD []

/-- The table with a link of a node.  The node is put behind those that have a link to the same id,
unless it is one of them. -/
def LinkTable.enter (node : Node) (table : LinkTable) (link : Link) : LinkTable :=
  alterKey link.target (fun ids =>
    let ids := ids.getD []
    some (if node.id ∈ ids then ids else ids ++ [node.id])) table

/-- The table of all links, node after node and link after link. -/
def linkTable (g : Graph) : LinkTable :=
  g.nodes.foldl (fun table n => n.links.foldl (LinkTable.enter n) table) []

/-- The ids of the nodes that have a link to `id`, in the order of the document. -/
def downstream (g : Graph) (id : String) : List String :=
  g.linkTable.under id

/-- The link carries data. -/
def isDataLink (g : Graph) (link : Link) : Bool :=
  link.outlet = some g.dataOutlet

/-- The links of a node that carry data. -/
def dataLinks (g : Graph) (node : Node) : List Link :=
  node.links.filter g.isDataLink

/-- Nodes without those whose id stands earlier in the list. -/
def distinct : List Node → List Node
  | [] => []
  | n :: rest => n :: (distinct rest).filter fun m => m.id ≠ n.id

/-- The nodes from which data flows into a node, each once, in the order of the links. -/
def dataSources (g : Graph) (node : Node) : Except Error (List Node) := do
  return distinct (← (g.dataLinks node).mapM (g.follow node))

/-! ## Each node once -/

/-- The nodes that are kept stand in the order in which they stood. -/
theorem distinct_sublist (nodes : List Node) : (distinct nodes).Sublist nodes := by
  induction nodes with
  | nil => exact List.Sublist.refl _
  | cons n rest ih => exact (List.filter_sublist.trans ih).cons_cons n

/-- No two of the nodes that are kept have the same id. -/
theorem pairwise_distinct (nodes : List Node) :
    (distinct nodes).Pairwise fun m n => m.id ≠ n.id := by
  induction nodes with
  | nil => exact List.Pairwise.nil
  | cons n rest ih =>
    refine List.pairwise_cons.2 ⟨fun m hm => ?_, ih.sublist List.filter_sublist⟩
    have hne : m.id ≠ n.id := by simpa using (List.mem_filter.1 hm).2
    exact hne.symm

/-- The id of every node is kept. -/
theorem exists_mem_distinct {nodes : List Node} {n : Node} (h : n ∈ nodes) :
    ∃ m ∈ distinct nodes, m.id = n.id := by
  induction nodes with
  | nil => simp at h
  | cons k rest ih =>
    by_cases hk : k.id = n.id
    · exact ⟨k, List.mem_cons_self, hk⟩
    · obtain ⟨m, hm, he⟩ := ih ((List.mem_cons.1 h).resolve_left fun e => hk (e ▸ rfl))
      refine ⟨m, List.mem_cons_of_mem _ (List.mem_filter.2 ⟨hm, ?_⟩), he⟩
      simpa [he] using fun e => hk e.symm

end Graph

end Pipewright
