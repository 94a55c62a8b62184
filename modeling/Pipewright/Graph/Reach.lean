import Pipewright.Graph.Basic

/-!
# What links lead to

* `Graph.LinksTo`: a link of one node leads to another.
* `Graph.Reaches`: links lead from one node to another, through any number of nodes.
* `Graph.Needed`: an execution node leads to the node, so a workflow needs it.
-/

namespace Pipewright

namespace Graph

variable {g : Graph} {a b c : Node}

/-- A link of `a` leads to `b`, through whatever outlet. -/
def LinksTo (g : Graph) (a b : Node) : Prop :=
  ∃ link ∈ a.links, g.follow a link = .ok b

/-- Links lead from one node to another, through any number of nodes. -/
inductive Reaches (g : Graph) (a : Node) : Node → Prop where
  | refl : Reaches g a a
  | tail {b c : Node} : Reaches g a b → g.LinksTo b c → Reaches g a c

/-- What links lead to from where links lead to. -/
theorem Reaches.trans (hab : g.Reaches a b) (hbc : g.Reaches b c) : g.Reaches a c := by
  induction hbc with
  | refl => exact hab
  | tail _ h ih => exact ih.tail h

/-- An execution node leads to the node, or the node is one. -/
def Needed (g : Graph) (n : Node) : Prop :=
  ∃ root ∈ g.executionNodes, g.Reaches root n

/-- What a needed node has a link to is needed. -/
theorem Needed.tail (h : g.Needed a) (hab : g.LinksTo a b) : g.Needed b := by
  obtain ⟨root, hroot, hreach⟩ := h
  exact ⟨root, hroot, hreach.tail hab⟩

end Graph

end Pipewright
