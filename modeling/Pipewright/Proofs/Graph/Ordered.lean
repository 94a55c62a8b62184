import Pipewright.Proofs.Document.Identity
import Pipewright.Proofs.Document.RoundTrip
import Pipewright.Proofs.Graph.Recursion

/-!
# Documents in order

A document is in order when every link of a node is to a node that stands before it.  If all its
nodes are steps, the visits of the roots then find nothing to do but to put the root at hand down:
what it has links to stands in the order already, since it was a root before.  So such a document
keeps its order, and the order that is found for a document is one that is found again.

* `Document.Ordered`: every link of a node is to a node that stands before it.
* `Document.parse_compact_of_subset`: nodes that have been read once are read again in whatever
  pipelines they are put.
* `Graph.visit_of_settled`: a node is put down at once when all it has links to has been.
* `Graph.foldlM_visit_of_linksBack`, `Graph.executionOrder_of_linksBack`: so are the roots, one
  after the other, when their links lead back.
* `Graph.executionOrder_ordered`: the main statement.
-/

namespace Pipewright

namespace Document

variable {source : String} {d d' : Document}

/-- Every link of a node is to the id of a node that stands before it. -/
def Ordered (d : Document) : Prop :=
  ∀ before n after, d.nodes = before ++ n :: after →
    ∀ link ∈ n.links, link.target ∈ before.map Node.id

/-! ## Putting nodes into other pipelines -/

/-- The nodes of a document that has been read can be told apart. -/
theorem identified_of_parse (h : parse source = .ok d) : Identified d.nodes := by
  by_contra hnot
  obtain ⟨fault, hfirst⟩ := exists_firstFault hnot
  have hsome := idFault?_of_firstFault hfirst
  rw [(parse_ok h).2] at hsome
  cases hsome

theorem normal_iff : d.Normal ↔ ∀ n ∈ d.nodes, n.Normal :=
  List.forall_mem_flatMap.symm

/-- Nodes of a document that has been read make a document that is read from what is written for it,
in whatever pipelines they are put, so long as none of them is there twice. -/
theorem parse_compact_of_subset (h : parse source = .ok d) (hsub : d'.nodes ⊆ d.nodes)
    (hnodup : (d'.nodes.map Node.id).Nodup) : parse d'.toValue.compact = .ok d' := by
  have hnormal : d'.Normal := normal_iff.mpr fun n hn => normal_iff.mp (parse_ok h).1 n (hsub hn)
  have hids : Identified d'.nodes :=
    ⟨fun n hn => (identified_of_parse h).identified n (hsub hn), hnodup⟩
  exact parse_compact_of_normal hnormal (idFault?_of_identified hids)

end Document

namespace Graph

open Search (LinksBack)

variable {g : Graph} {path order : List Node} {node : Node}

/-! ## Visits that find all done -/

/-- Links to nodes that stand in the order change nothing. -/
theorem foldlM_visitLink_of_settled {links : List Link}
    (h : ∀ link ∈ links, ∃ m ∈ order, g.follow node link = .ok m) :
    links.foldlM (g.visitLink path node) order = .ok order := by
  induction links with
  | nil => rfl
  | cons link rest ih =>
    obtain ⟨⟨m, hm, hfollow⟩, hrest⟩ := List.forall_mem_cons.mp h
    rw [List.foldlM_cons, visitLink_of_ok hfollow, visit_of_mem_order (List.mem_map_of_mem hm)]
    exact ih hrest

/-- A node is put down at once when all that it has links to stands in the order. -/
theorem visit_of_settled {hnode : node ∈ g.nodes} (horder : node.id ∉ order.map Node.id)
    (hpath : node.id ∉ path.map Node.id)
    (h : ∀ link ∈ node.links, ∃ m ∈ order, g.follow node link = .ok m) :
    g.visit path order node hnode = .ok (order ++ [node]) := by
  rw [visit_eq horder hpath, foldlM_visitLink_of_settled h]
  rfl

/-- Roots whose links lead back are put down as they stand.  Those that have been put down are in
the order when the next one has its turn. -/
theorem foldlM_visit_of_linksBack {roots : List {n // n ∈ g.executionNodes}}
    (hback : LinksBack g (order ++ roots.map Subtype.val))
    (hnodup : ((order ++ roots.map Subtype.val).map Node.id).Nodup) :
    roots.foldlM (fun order root => g.visit [] order root.1 (List.mem_filter.mp root.2).1) order =
      .ok (order ++ roots.map Subtype.val) := by
  induction roots generalizing order with
  | nil => rw [List.map_nil, List.append_nil]; rfl
  | cons root rest ih =>
    rw [List.map_cons] at hback hnodup ⊢
    have hfresh : root.1.id ∉ order.map Node.id := by
      rw [List.map_append, List.map_cons] at hnodup
      exact fun hmem => (List.nodup_append.mp hnodup).2.2 _ hmem _ List.mem_cons_self rfl
    have hvisit : g.visit [] order root.1 (List.mem_filter.mp root.2).1 = .ok (order ++ [root.1]) :=
      visit_of_settled hfresh List.not_mem_nil (hback _ _ _ rfl)
    rw [List.append_cons] at hback hnodup ⊢
    rw [List.foldlM_cons, hvisit]
    exact ih hback hnodup

/-- Execution nodes with links to earlier ones only are the order that is found. -/
theorem visitedOrder_of_linksBack (hnodup : (g.executionNodes.map Node.id).Nodup)
    (h : LinksBack g g.executionNodes) : g.visitedOrder = .ok g.executionNodes := by
  have hval : [] ++ g.executionNodes.attach.map Subtype.val = g.executionNodes :=
    List.attach_map_subtype_val _
  rw [visitedOrder, foldlM_visit_of_linksBack (by rwa [hval]) (by rwa [hval]), hval]

theorem executionOrder_of_linksBack (hg : g.Accepted) (h : LinksBack g g.executionNodes) :
    g.executionOrder = .ok g.executionNodes := by
  have hnodup : (g.executionNodes.map Node.id).Nodup :=
    (List.filter_sublist.map Node.id).nodup hg.nodup_ids
  have hsearch : ((g.executionNodes.attach.map Subtype.val).foldlM g.searchFrom {}).map
      Search.order = g.visitedOrder := (atRest_empty g).foldlM_visit hg
  rw [List.attach_map_subtype_val] at hsearch
  rw [executionOrder_eq_map, hsearch, visitedOrder_of_linksBack hnodup h]

/-! ## Documents of steps -/

section Steps

variable {d d' : Document} {outlet : String}

/-- Where all nodes are steps, the execution nodes are the nodes. -/
theorem executionNodes_eq (hsteps : ∀ n ∈ g.nodes, n.isExecution) : g.executionNodes = g.nodes :=
  List.filter_eq_self.mpr hsteps

/-- In a document in order all links lead back. -/
theorem linksBack_of_ordered (hg : (ofDocument d outlet).Accepted) (h : d.Ordered) :
    LinksBack (ofDocument d outlet) d.nodes := by
  intro before n after heq link hlink
  obtain ⟨m, hm, hid⟩ := List.mem_map.mp (h before n after heq link hlink)
  have hmem : m ∈ d.nodes := heq ▸ List.mem_append_left _ hm
  exact ⟨m, hm, follow_eq_ok_iff.mpr (hid ▸ hg.node?_id hmem)⟩

/-- A document whose nodes stand in an order in which all links lead back is in order, whatever the
graph in which they do. -/
theorem ordered_of_linksBack (h : LinksBack g d.nodes) : d.Ordered := by
  intro before n after heq link hlink
  obtain ⟨m, hm, hfollow⟩ := h before n after heq link hlink
  exact List.mem_map.mpr ⟨m, hm, id_of_node? (follow_eq_ok_iff.mp hfollow)⟩

/-- A document of steps keeps its order exactly when it is in order. -/
theorem executionOrder_eq_nodes_iff (hg : (ofDocument d outlet).Accepted)
    (hsteps : ∀ n ∈ d.nodes, n.isExecution) :
    (ofDocument d outlet).executionOrder = .ok d.nodes ↔ d.Ordered := by
  constructor
  · exact fun h => ordered_of_linksBack (linksBack_executionOrder hg h)
  · intro h
    have hnodes : (ofDocument d outlet).executionNodes = d.nodes := executionNodes_eq hsteps
    rw [executionOrder_of_linksBack hg (hnodes.symm ▸ linksBack_of_ordered hg h), hnodes]

/-- The order of a document of steps has all its nodes. -/
theorem perm_of_executionOrder (hg : g.Accepted) (hsteps : ∀ n ∈ g.nodes, n.isExecution)
    (h : g.executionOrder = .ok order) : order.Perm g.nodes := by
  rw [List.perm_ext_iff_of_nodup (nodup_executionOrder hg h).of_map hg.nodup_ids.of_map]
  intro n
  rw [mem_executionOrder_iff hg h]
  constructor
  · exact fun hneeded => mem_of_node? (hneeded.node?_id hg)
  · exact fun hn => ⟨n, List.mem_filter.mpr ⟨hn, hsteps n hn⟩, .refl⟩

/-- A document of steps keeps its order exactly when every link is to a node that stands before.
Whatever order is found for one, its nodes can be written down in that order, in any pipelines: that
document is read, it is in order, and the same order is found for it. -/
theorem executionOrder_ordered {source : String} (h : Document.parse source = .ok d)
    (hsteps : ∀ n ∈ d.nodes, n.isExecution) (outlet : String) :
    ((ofDocument d outlet).executionOrder = .ok d.nodes ↔ d.Ordered) ∧
    ∀ order, (ofDocument d outlet).executionOrder = .ok order → ∀ d' : Document, d'.nodes = order →
      d'.nodes.Perm d.nodes ∧ Document.parse d'.toValue.compact = .ok d' ∧ d'.Ordered ∧
        ∀ outlet', (ofDocument d' outlet').executionOrder = .ok order := by
  have hg : (ofDocument d outlet).Accepted := ⟨source, d, h, rfl⟩
  refine ⟨executionOrder_eq_nodes_iff hg hsteps, ?_⟩
  rintro _ horder d' rfl
  have hperm : d'.nodes.Perm d.nodes := perm_of_executionOrder hg hsteps horder
  have hread := Document.parse_compact_of_subset h hperm.subset (nodup_executionOrder hg horder)
  have hordered := ordered_of_linksBack (linksBack_executionOrder hg horder)
  have hsteps' : ∀ n ∈ d'.nodes, n.isExecution := fun n hn => hsteps n (hperm.subset hn)
  exact ⟨hperm, hread, hordered, fun outlet' =>
    (executionOrder_eq_nodes_iff ⟨_, d', hread, rfl⟩ hsteps').mpr hordered⟩

end Steps

/-- Four steps in order: two with a link to the first, and one with links to these two. -/
def diamondSteps : List Node := [
  { id := "a", kind := .execution },
  { id := "b", kind := .execution, inputs := [⟨none, [⟨"a", none⟩]⟩] },
  { id := "c", kind := .execution, inputs := [⟨none, [⟨"a", none⟩]⟩] },
  { id := "d", kind := .execution, inputs := [⟨none, [⟨"b", none⟩, ⟨"c", none⟩]⟩] }]

/-- The steps the other way round. -/
def diamondDocument : Document := ⟨[⟨"", diamondSteps.reverse⟩]⟩

/-- That document as a text. -/
def diamondText : String :=
  "[[[\"\",[[\"d\",\"execution_node\",null,null,[[null,[[\"b\"],[\"c\"]]]]]," ++
  "[\"c\",\"execution_node\",null,null,[[null,[[\"a\"]]]]]," ++
  "[\"b\",\"execution_node\",null,null,[[null,[[\"a\"]]]]],[\"a\",\"execution_node\"]]]]]"

/-- The steps in order, in three pipelines, one of which is left without any. -/
def orderedDiamond : Document :=
  ⟨[⟨"p", diamondSteps.take 2⟩, ⟨"q", []⟩, ⟨"r", diamondSteps.drop 2⟩]⟩

/-- The diamond is not in order.  Written down in the order that is found for it, it is, and it is
read and keeps its order. -/
theorem executionOrder_diamondDocument :
    Document.parse diamondText = .ok diamondDocument ∧
    (∀ n ∈ diamondDocument.nodes, n.isExecution) ∧ ¬ diamondDocument.Ordered ∧
    (ofDocument diamondDocument defaultOutlet).executionOrder = .ok orderedDiamond.nodes ∧
    Document.parse orderedDiamond.toValue.compact = .ok orderedDiamond ∧ orderedDiamond.Ordered ∧
    (ofDocument orderedDiamond "").executionOrder = .ok orderedDiamond.nodes := by
  have hread : Document.parse diamondText = .ok diamondDocument :=
    eq_ok_of_toOption (by decide +kernel)
  have hsteps : ∀ n ∈ diamondDocument.nodes, n.isExecution := by decide +kernel
  have horder : (ofDocument diamondDocument defaultOutlet).executionOrder =
      .ok orderedDiamond.nodes := rfl
  obtain ⟨hkept, hfound⟩ := executionOrder_ordered hread hsteps defaultOutlet
  obtain ⟨-, hread', hordered, horder'⟩ := hfound _ horder orderedDiamond rfl
  refine ⟨hread, hsteps, fun hin => ?_, horder, hread', hordered, horder' ""⟩
  have hsame := Except.ok.inj (horder.symm.trans (hkept.mpr hin))
  exact absurd hsame (by decide)

end Graph

end Pipewright
