import Mathlib.Data.List.Nodup
import Pipewright.Proofs.Graph.SearchEnd

/-!
# The execution order is topological

The order holds what the workflow needs and nothing else: the execution nodes and all nodes that
links lead to from them, each once, and every link leads from a node to an earlier one.

* `Graph.DependsOn`: one link or more lead from a node to another.
* `Search.LinksBack.exists_lt`: a link leads to a smaller position.
* `Graph.mem_executionOrder_iff`: the nodes of the order are the needed ones.
* `Graph.executionOrder_topological`: the main statement.
-/

namespace Pipewright

namespace Graph

variable {g : Graph} {a b c : Node} {order : List Node}

/-! ## Dependence -/

/-- A node depends on another when one link or more lead from it to that one. -/
def DependsOn (g : Graph) (a b : Node) : Prop :=
  ∃ c, g.LinksTo a c ∧ g.Reaches c b

end Graph

namespace Search

variable {g : Graph} {order : List Node} {a b c n : Node}

/-! ## Positions -/

/-- Where links lead back, a link leads to a smaller position. -/
theorem LinksBack.exists_lt (h : LinksBack g order) {i : Nat} (hi : order[i]? = some n)
    {link : Link} (hlink : link ∈ n.links) :
    ∃ m j, g.follow n link = .ok m ∧ j < i ∧ order[j]? = some m := by
  obtain ⟨hlt, hn⟩ := List.getElem?_eq_some_iff.mp hi
  have hsplit : order = order.take i ++ n :: order.drop (i + 1) := by
    rw [← hn, ← List.drop_eq_getElem_cons hlt, List.take_append_drop]
  obtain ⟨m, hm, hfollow⟩ := h _ n _ hsplit link hlink
  obtain ⟨j, hj, rfl⟩ := List.getElem_of_mem hm
  rw [List.length_take] at hj
  refine ⟨_, j, hfollow, by omega, ?_⟩
  rw [List.getElem_take]
  exact List.getElem?_eq_getElem _

/-- Where links lead back, a node that a node depends on has a smaller position. -/
theorem LinksBack.exists_lt_of_dependsOn (h : LinksBack g order) {i : Nat}
    (hi : order[i]? = some a) (hab : g.DependsOn a b) : ∃ j < i, order[j]? = some b := by
  obtain ⟨c, ⟨link, hlink, hfollow⟩, hreach⟩ := hab
  induction hreach with
  | refl =>
    obtain ⟨m, j, hm, hj, hpos⟩ := h.exists_lt hi hlink
    obtain rfl := Except.ok.inj (hm.symm.trans hfollow)
    exact ⟨j, hj, hpos⟩
  | tail _ hstep ih =>
    obtain ⟨j, hj, hpos⟩ := ih
    obtain ⟨link', hlink', hfollow'⟩ := hstep
    obtain ⟨m, k, hm, hk, hpos'⟩ := h.exists_lt hpos hlink'
    obtain rfl := Except.ok.inj (hm.symm.trans hfollow')
    exact ⟨k, by omega, hpos'⟩

/-- Where links lead back, what links lead to from a node of the list is in the list. -/
theorem LinksBack.mem_of_reaches (h : LinksBack g order) (ha : a ∈ order) (hab : g.Reaches a b) :
    b ∈ order := by
  induction hab with
  | refl => exact ha
  | tail _ hstep ih =>
    obtain ⟨i, hi⟩ := List.getElem?_of_mem ih
    obtain ⟨j, -, hj⟩ := h.exists_lt_of_dependsOn hi ⟨_, hstep, .refl⟩
    exact List.mem_of_getElem? hj

end Search

namespace Graph

variable {g : Graph} {a b n : Node} {order : List Node}

/-- A list in which no id occurs twice has no node at two positions. -/
theorem eq_of_getElem?_eq_some (hnodup : (order.map Node.id).Nodup) {i j : Nat}
    (hi : order[i]? = some n) (hj : order[j]? = some n) : i = j := by
  have hlt : i < order.length := (List.getElem?_eq_some_iff.mp hi).1
  exact (List.getElem?_inj hlt (hnodup.of_map _)).mp (hi.trans hj.symm)

/-! ## The order -/

/-- In the order no id occurs twice. -/
theorem nodup_executionOrder (hg : g.Accepted) (h : g.executionOrder = .ok order) :
    (order.map Node.id).Nodup := by
  obtain ⟨s, hs, rfl, -⟩ := executionOrder_ok hg h
  exact hs.sound.nodup_order

/-- In the order all links lead back. -/
theorem linksBack_executionOrder (hg : g.Accepted) (h : g.executionOrder = .ok order) :
    Search.LinksBack g order := by
  obtain ⟨s, hs, rfl, -⟩ := executionOrder_ok hg h
  exact hs.sound.linksBack

/-- The nodes of the order are the execution nodes and those that links lead to from them. -/
theorem mem_executionOrder_iff (hg : g.Accepted) (h : g.executionOrder = .ok order) :
    n ∈ order ↔ g.Needed n := by
  obtain ⟨s, hs, rfl, hroots⟩ := executionOrder_ok hg h
  constructor
  · exact hs.sound.needed_of_mem_order n
  · rintro ⟨root, hroot, hreach⟩
    exact hs.sound.linksBack.mem_of_reaches (hroots root hroot) hreach

/-- The execution order is a topological order of the needed nodes: each of them stands in it once,
every link of one leads to a smaller position, and so does every dependence. -/
theorem executionOrder_topological (hg : g.Accepted) (h : g.executionOrder = .ok order) :
    (order.map Node.id).Nodup ∧ (∀ n, n ∈ order ↔ g.Needed n) ∧
      (∀ (i : Nat) n, order[i]? = some n → ∀ link ∈ n.links,
        ∃ m j, g.follow n link = .ok m ∧ j < i ∧ order[j]? = some m) ∧
      ∀ (i j : Nat) a b, order[i]? = some a → order[j]? = some b → g.DependsOn a b → j < i := by
  have hnodup := nodup_executionOrder hg h
  have hback := linksBack_executionOrder hg h
  refine ⟨hnodup, fun n => mem_executionOrder_iff hg h, fun i n hi link hlink =>
    hback.exists_lt hi hlink, fun i j a b hi hj hab => ?_⟩
  obtain ⟨k, hk, hb⟩ := hback.exists_lt_of_dependsOn hi hab
  obtain rfl := eq_of_getElem?_eq_some hnodup hb hj
  exact hk

/-- In the small document the node that is no step comes first, and the step that reads the file
comes last. -/
theorem executionOrder_smallGraph_topological :
    smallGraph.executionOrder = .ok smallDocument.nodes.reverse ∧
      (smallDocument.nodes.reverse.map Node.id).Nodup ∧
      (∀ n, n ∈ smallDocument.nodes.reverse ↔ smallGraph.Needed n) ∧
      (∀ (i : Nat) n, smallDocument.nodes.reverse[i]? = some n → ∀ link ∈ n.links,
        ∃ m j, smallGraph.follow n link = .ok m ∧ j < i ∧
          smallDocument.nodes.reverse[j]? = some m) ∧
      ∀ (i j : Nat) a b, smallDocument.nodes.reverse[i]? = some a →
        smallDocument.nodes.reverse[j]? = some b → smallGraph.DependsOn a b → j < i :=
  ⟨rfl, executionOrder_topological accepted_smallGraph rfl⟩

end Graph

end Pipewright
