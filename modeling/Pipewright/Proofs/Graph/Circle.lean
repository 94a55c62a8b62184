import Mathlib.Data.List.Chain
import Pipewright.Proofs.Graph.Topological

/-!
# When there is no execution order

The search fails exactly when it has to: on a link of a needed node that leads nowhere, or on a
circle that an execution node leads to.  What the error says is true: the ids along a circle are
read off the path, whose frames wait for one another, and a dangling link is one of a needed node.

* `Graph.IsCircle`: distinct nodes, each with a link to the next, and the last to the first.
* `Search.Waits.isChain`: links lead along a path whose frames wait for a node.
* `Search.Sound.exists_isCircle`: meeting a node of the path closes a circle.
* `Graph.executionOrder_faults`: the main statement.
-/

namespace Pipewright

namespace Graph

variable {g : Graph} {a b c v : Node} {rest : List Node}

/-- Links lead to where a node depends on. -/
theorem DependsOn.reaches (h : g.DependsOn a b) : g.Reaches a b := by
  obtain ⟨c, hac, hcb⟩ := h
  exact (Reaches.refl.tail hac).trans hcb

/-- Along a chain of links the first node depends on the last. -/
theorem dependsOn_of_isChain {between : List Node}
    (h : (a :: between ++ [b]).IsChain g.LinksTo) : g.DependsOn a b := by
  induction between generalizing a with
  | nil => exact ⟨b, List.isChain_pair.mp h, .refl⟩
  | cons c between ih =>
    obtain ⟨hac, hrest⟩ := List.isChain_cons_cons.mp h
    exact ⟨c, hac, (ih hrest).reaches⟩

/-- The nodes `v :: rest` have distinct ids; each has a link to the next, and the last to `v`. -/
structure IsCircle (g : Graph) (v : Node) (rest : List Node) : Prop where
  nodup : ((v :: rest).map Node.id).Nodup
  isChain : (v :: rest ++ [v]).IsChain g.LinksTo

/-- A node of a circle depends on itself. -/
theorem IsCircle.dependsOn (h : g.IsCircle v rest) : g.DependsOn v v :=
  dependsOn_of_isChain h.isChain

end Graph

namespace Search

variable {g : Graph} {s : Search} {order : List Node} {n : Node}

/-- Links lead along a path whose frames wait for a node, from the bottom of the path to the
node. -/
theorem Waits.isChain {path : List Frame} (h : Waits g order n path) :
    ((path.map Frame.node).reverse ++ [n]).IsChain g.LinksTo := by
  rw [← List.reverse_cons, List.isChain_reverse]
  induction path generalizing n with
  | nil => exact List.isChain_singleton n
  | cons frame below ih =>
    rw [List.map_cons, List.isChain_cons_cons]
    exact ⟨h.linksTo, ih h.2⟩

/-- What is dropped up to the id of a node are the ids of the nodes before it. -/
theorem dropWhile_map_id {before after : List Node}
    (h : ((before ++ n :: after).map Node.id).Nodup) :
    ((before ++ n :: after).map Node.id).dropWhile (· ≠ n.id) = (n :: after).map Node.id := by
  rw [List.map_append, List.nodup_append] at h
  rw [List.map_append, List.dropWhile_append_of_pos]
  · simp
  · intro id hid
    have hne : id ≠ n.id := fun heq => h.2.2 id hid n.id List.mem_cons_self heq
    simpa using hne

/-- Meeting a node of the path closes a circle, which is the one that is reported. -/
theorem Sound.exists_isCircle (hg : g.Accepted) (hs : Sound g s) {frame : Frame}
    {below : List Frame} {link : Link} {next : Node} (hpath : s.path = frame :: below)
    (hlink : frame.node.links[frame.followed]? = some link)
    (hnext : g.follow frame.node link = .ok next) (hmark : s.mark? next.id = some .entered) :
    ∃ rest, g.IsCircle next rest ∧
      circle (s.advance frame below).path next.id = (next :: rest ++ [next]).map Node.id := by
  have hnodes : (s.advance frame below).path.map Frame.node = s.path.map Frame.node := by
    rw [hpath]
    rfl
  have hchain := (hs.waits_next hpath hlink hnext).isChain
  rw [hnodes] at hchain
  have hmem : next ∈ (s.path.map Frame.node).reverse := by
    obtain ⟨f, hf, hid⟩ := List.mem_map.mp ((hs.entered_iff next.id).mp hmark)
    have hfound := (hs.needed_of_mem_path f hf).node?_id hg
    rw [hid, Graph.node?_id_of_follow hnext] at hfound
    rw [List.mem_reverse, Option.some.inj hfound]
    exact List.mem_map_of_mem hf
  obtain ⟨before, after, hsplit⟩ := List.append_of_mem hmem
  have hnodup : ((before ++ next :: after).map Node.id).Nodup := by
    rw [← hsplit, List.map_reverse, List.map_map]
    exact List.nodup_reverse.mpr hs.nodup_path
  rw [hsplit, List.append_assoc] at hchain
  refine ⟨after, ⟨?_, hchain.right_of_append⟩, ?_⟩
  · rw [List.map_append] at hnodup
    exact (List.nodup_append.mp hnodup).2.1
  · have hids : (s.advance frame below).path.reverse.map (fun f => f.node.id) =
        (before ++ next :: after).map Node.id := by
      rw [← hsplit, ← hnodes, List.map_reverse, List.map_reverse, List.map_map]
      rfl
    rw [circle, hids, dropWhile_map_id hnodup, List.map_append]
    rfl

end Search

namespace Graph

variable {g : Graph} {order : List Node}

/-- An error of the search is about a circle that an execution node leads to or about a link of a
needed node that leads nowhere. -/
theorem executionOrder_error_cases (hg : g.Accepted) {e : Error}
    (h : g.executionOrder = .error e) :
    (∃ v rest, e = .cyclicGraph v.id ((v :: rest ++ [v]).map Node.id) ∧ g.IsCircle v rest ∧
        g.Needed v) ∨
      ∃ n link, e = .danglingReference n.id link.target ∧ g.Needed n ∧ link ∈ n.links ∧
        g.node? link.target = none := by
  obtain ⟨s, hs, hstep⟩ := executionOrder_error hg h
  cases hstep with
  | @dangling frame below link hpath hlink hnode =>
    have hneeded := hs.needed_of_mem_path frame (hpath ▸ List.mem_cons_self)
    exact .inr ⟨frame.node, link, rfl, hneeded, List.mem_of_getElem? hlink, hnode⟩
  | @circle frame below link next hpath hlink hnext hmark =>
    obtain ⟨rest, hcircle, hids⟩ := hs.exists_isCircle hg hpath hlink hnext hmark
    exact .inl ⟨next, rest, by rw [hids], hcircle, hs.needed_next hpath hlink hnext⟩

/-- The order exists exactly when every link of a needed node leads somewhere and no needed node
depends on itself. -/
theorem exists_executionOrder_iff (hg : g.Accepted) :
    (∃ order, g.executionOrder = .ok order) ↔
      (∀ n, g.Needed n → ∀ link ∈ n.links, ∃ m, g.follow n link = .ok m) ∧
        ∀ n, g.Needed n → ¬ g.DependsOn n n := by
  constructor
  · rintro ⟨order, h⟩
    have hback := linksBack_executionOrder hg h
    have hnodup := nodup_executionOrder hg h
    have hpos : ∀ n, g.Needed n → ∃ i, order[i]? = some n := fun n hn =>
      List.getElem?_of_mem ((mem_executionOrder_iff hg h).mpr hn)
    refine ⟨fun n hn link hlink => ?_, fun n hn hself => ?_⟩
    · obtain ⟨i, hi⟩ := hpos n hn
      obtain ⟨m, -, hfollow, -⟩ := hback.exists_lt hi hlink
      exact ⟨m, hfollow⟩
    · obtain ⟨i, hi⟩ := hpos n hn
      obtain ⟨j, hj, hn⟩ := hback.exists_lt_of_dependsOn hi hself
      exact absurd (eq_of_getElem?_eq_some hnodup hn hi) (by omega)
  · rintro ⟨hresolve, hacyclic⟩
    cases h : g.executionOrder with
    | ok order => exact ⟨order, rfl⟩
    | error e =>
      exfalso
      obtain ⟨v, rest, -, hcircle, hv⟩ | ⟨n, link, -, hn, hlink, hnode⟩ :=
        executionOrder_error_cases hg h
      · exact hacyclic v hv hcircle.dependsOn
      · obtain ⟨m, hm⟩ := hresolve n hn link hlink
        rw [follow_eq_ok_iff, hnode] at hm
        cases hm

/-- There is no order exactly when a link of a needed node leads nowhere or a needed node depends
on itself.  The error then is about a circle of links that is needed and told in full, or about a
link of a needed node to an id that no node has. -/
theorem executionOrder_faults (hg : g.Accepted) :
    ((∃ order, g.executionOrder = .ok order) ↔
      (∀ n, g.Needed n → ∀ link ∈ n.links, ∃ m, g.follow n link = .ok m) ∧
        ∀ n, g.Needed n → ¬ g.DependsOn n n) ∧
    ∀ e, g.executionOrder = .error e →
      (∃ v rest, g.Needed v ∧ g.IsCircle v rest ∧
        e = .cyclicGraph v.id ((v :: rest ++ [v]).map Node.id) ∧
        e.message = "Cyclic pipeline graph: node '" ++ v.id ++ "' is its own upstream (" ++
          String.intercalate " -> " ((v :: rest ++ [v]).map Node.id) ++ ")") ∨
      ∃ n link, g.Needed n ∧ link ∈ n.links ∧ (∀ m ∈ g.nodes, m.id ≠ link.target) ∧
        e = .danglingReference n.id link.target := by
  refine ⟨exists_executionOrder_iff hg, fun e he => ?_⟩
  obtain ⟨v, rest, rfl, hcircle, hv⟩ | ⟨n, link, rfl, hn, hlink, hnode⟩ :=
    executionOrder_error_cases hg he
  · exact .inl ⟨v, rest, hv, hcircle, rfl, rfl⟩
  · exact .inr ⟨n, link, hn, hlink, node?_eq_none_iff.mp hnode, rfl⟩

/-- An execution node and a node that is no step, with links to each other, and a step with a link
into that circle. -/
def circleText : String :=
  "[[[\"\",[[\"c\",\"execution_node\",null,null,[[null,[[\"a\"]]]]]," ++
  "[\"a\",null,null,null,[[null,[[\"b\"]]]]],[\"b\",null,null,null,[[null,[[\"a\"]]]]]]]]]"

/-- The document of that text. -/
def circleDocument : Document := ⟨[⟨"", [
  { id := "c", kind := .execution, inputs := [⟨none, [⟨"a", none⟩]⟩] },
  { id := "a", inputs := [⟨none, [⟨"b", none⟩]⟩] },
  { id := "b", inputs := [⟨none, [⟨"a", none⟩]⟩] }]⟩]⟩

/-- The graph of that document. -/
def circleGraph : Graph := .ofDocument circleDocument defaultOutlet

theorem parse_circleText : Document.parse circleText = .ok circleDocument :=
  eq_ok_of_toOption (by decide +kernel)

theorem accepted_circleGraph : circleGraph.Accepted :=
  ⟨circleText, circleDocument, parse_circleText, rfl⟩

/-- The circle is found from the step that leads to it, and is told from its first node on. -/
theorem executionOrder_circleGraph_faults :
    circleGraph.executionOrder = .error (.cyclicGraph "a" ["a", "b", "a"]) ∧
    ((∃ order, circleGraph.executionOrder = .ok order) ↔
      (∀ n, circleGraph.Needed n → ∀ link ∈ n.links, ∃ m, circleGraph.follow n link = .ok m) ∧
        ∀ n, circleGraph.Needed n → ¬ circleGraph.DependsOn n n) ∧
    ∀ e, circleGraph.executionOrder = .error e →
      (∃ v rest, circleGraph.Needed v ∧ circleGraph.IsCircle v rest ∧
        e = .cyclicGraph v.id ((v :: rest ++ [v]).map Node.id) ∧
        e.message = "Cyclic pipeline graph: node '" ++ v.id ++ "' is its own upstream (" ++
          String.intercalate " -> " ((v :: rest ++ [v]).map Node.id) ++ ")") ∨
      ∃ n link, circleGraph.Needed n ∧ link ∈ n.links ∧
        (∀ m ∈ circleGraph.nodes, m.id ≠ link.target) ∧
        e = .danglingReference n.id link.target :=
  ⟨rfl, executionOrder_faults accepted_circleGraph⟩

end Graph

end Pipewright
