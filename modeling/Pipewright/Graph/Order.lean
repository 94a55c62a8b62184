import Pipewright.Graph.Basic

/-!
# Execution order

A step runs after all the nodes it has links to, through whatever outlet.  The order is found by a
depth-first search from the execution nodes, in the order of the document: a node is entered when
a link to it is followed for the first time, and left, that is emitted, when all its links have
been followed.  Meeting a node that has been entered but not left closes a circle.

The search is a sequence of steps on a state that holds the path to the node at hand, so it can
be stopped and looked at between any two steps.  A step follows a link or leaves a node; every
node is entered at most once, so there are no more steps than nodes and links together.

* `Search`, `Search.step`: the states and steps of the search.
* `Graph.searchFrom`: the search from one execution node.
* `Graph.executionOrder`: the nodes in the order in which they are left.
-/

namespace Pipewright

/-- How far the search has got with a node. -/
inductive Mark where
  /-- The node has been entered; it is on the path to the node at hand. -/
  | entered
  /-- The node has been left. -/
  | left
deriving DecidableEq, Repr

/-- A node on the path to the node at hand, with the number of its links that have been
followed. -/
structure Frame where
  node : Node
  followed : Nat
deriving DecidableEq, Repr

/-- A state of the search: the marks, the path with the node at hand in front, and the nodes that
have been left. -/
structure Search where
  marks : List (String × Mark) := []
  path : List Frame := []
  order : List Node := []
deriving Repr

namespace Search

/-- The mark of a node.  The latest one counts. -/
def mark? (s : Search) (id : String) : Option Mark :=
  s.marks.lookup id

/-- Enters a node. -/
def enter (s : Search) (node : Node) : Search :=
  { s with marks := (node.id, .entered) :: s.marks, path := ⟨node, 0⟩ :: s.path }

/-- Leaves the node at hand, which stands on top of `below`. -/
def leave (s : Search) (node : Node) (below : List Frame) : Search :=
  { marks := (node.id, .left) :: s.marks, path := below, order := s.order ++ [node] }

/-- The ids of the nodes on the path from the one with the given id on, and that id again. -/
def circle (path : List Frame) (id : String) : List String :=
  ((path.reverse.map fun f => f.node.id).dropWhile (· ≠ id)) ++ [id]

/-- One step: the next link of the node at hand is followed, or the node is left when there is
none. -/
def step (g : Graph) (s : Search) : Option (Except Error Search) :=
  match s.path with
  | [] => none
  | frame :: below =>
    match frame.node.links[frame.followed]? with
    | none => some (.ok (s.leave frame.node below))
    | some link =>
      some do
        let next ← g.follow frame.node link
        let s := { s with path := { frame with followed := frame.followed + 1 } :: below }
        match s.mark? next.id with
        | some .left => return s
        | some .entered => throw (.cyclicGraph next.id (circle s.path next.id))
        | none => return s.enter next

/-- As many steps as there are to make, but at most `n`. -/
def run (g : Graph) : Nat → Search → Except Error Search
  | 0, s => .ok s
  | n + 1, s =>
    match s.step g with
    | none => .ok s
    | some (.error e) => .error e
    | some (.ok t) => run g n t

end Search

namespace Graph

/-- The number of nodes and links, which no search exceeds. -/
def work (g : Graph) : Nat :=
  g.nodes.foldr (fun n rest => n.links.length + 1 + rest) 0

/-- Continues a search from an execution node, unless that has been entered before. -/
def searchFrom (g : Graph) (s : Search) (root : Node) : Except Error Search :=
  if (s.mark? root.id).isSome then .ok s
  else Search.run g g.work (s.enter root)

/-- The nodes that execution nodes lead to, each after all nodes that it has links to. -/
def executionOrder (g : Graph) : Except Error (List Node) := do
  let s ← g.executionNodes.foldlM g.searchFrom {}
  return s.order

end Graph

end Pipewright
