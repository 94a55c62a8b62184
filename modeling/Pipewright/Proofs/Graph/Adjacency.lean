import Pipewright.Proofs.Graph.Accepted
import Pipewright.Proofs.Lists

/-!
# The graph stands for its document

What is looked up in the graph of a document that has been read can be told by the document alone.
An id finds the one node that has it.  Under an id the table of links has the nodes with a link to
it, each once and in the order of the document, for whichever outlet and in whichever group the
links are.  The data links of a node are followed until one leads nowhere, and what they lead to is
told once, where it is first met.

* `Graph.LinkTable.under_foldl_enter`, `Graph.under_foldl_nodes`: the table after the links of a
  node, and after those of several nodes.
* `FirstOccurrences`, `Graph.firstOccurrences_distinct`: entries told once.
* `Graph.downstream_eq`: the nodes that have a link to an id.
* `Graph.Followed`, `Graph.followed_dataSources`: following the data links of a node.
* `Graph.Represents`, `Graph.represents_of_parse`: the main statement.
-/

namespace Pipewright

/-- The entries of a list, each once, in the order in which they first stand in it. -/
structure FirstOccurrences (l firsts : List String) : Prop where
  mem_iff : ∀ a, a ∈ firsts ↔ a ∈ l
  ordered : firsts.Pairwise fun a b => l.idxOf a < l.idxOf b

namespace Graph

/-! ## The table of links -/

namespace LinkTable

variable {table : LinkTable} {node : Node} {id : String}

theorem under_enter (table : LinkTable) (node : Node) (link : Link) (id : String) :
    (enter node table link).under id =
      if link.target = id ∧ node.id ∉ table.under id then table.under id ++ [node.id]
      else table.under id := by
  rw [under, enter, lookup_alterKey, under]
  by_cases hid : id = link.target
  · subst hid
    by_cases hmem : node.id ∈ (table.lookup link.target).getD []
    · simp [hmem]
    · simp [hmem]
  · simp [hid, Ne.symm hid]

/-- After the links of a node, the node stands under an id if it stood there or has a link to it. -/
theorem under_foldl_enter (links : List Link) (table : LinkTable) (node : Node) (id : String) :
    (links.foldl (enter node) table).under id =
      if (∃ link ∈ links, link.target = id) ∧ node.id ∉ table.under id then
        table.under id ++ [node.id]
      else table.under id := by
  induction links generalizing table with
  | nil => simp
  | cons link rest ih =>
    rw [List.foldl_cons, ih, under_enter]
    by_cases htarget : link.target = id
    · by_cases hmem : node.id ∈ table.under id
      · simp [hmem]
      · -- the node has been put there by this link, and no later one puts it there again
        simp [htarget, hmem]
    · simp [htarget]

end LinkTable

variable {g : Graph} {d : Document} {n u : Node} {id : String} {link : Link}

/-! ## Nodes told once -/

/-- The ids of the nodes that are kept of a list are those of the list, each once. -/
theorem firstOccurrences_distinct (nodes : List Node) :
    FirstOccurrences (nodes.map Node.id) ((distinct nodes).map Node.id) where
  mem_iff id := by
    constructor
    · intro h
      exact ((distinct_sublist nodes).map Node.id).subset h
    · intro h
      obtain ⟨n, hn, rfl⟩ := List.mem_map.mp h
      obtain ⟨m, hm, hid⟩ := exists_mem_distinct hn
      exact hid ▸ List.mem_map_of_mem hm
  ordered := by
    induction nodes with
    | nil => exact .nil
    | cons n rest ih =>
      rw [distinct, List.map_cons, List.map_cons, List.pairwise_cons]
      -- behind its first node the list is searched for ids that differ from the first one
      have hskip : ∀ m ∈ (distinct rest).filter fun m => m.id ≠ n.id,
          (n.id :: rest.map Node.id).idxOf m.id = (rest.map Node.id).idxOf m.id + 1 := by
        intro m hm
        have hne : m.id ≠ n.id := by simpa using (List.mem_filter.mp hm).2
        rw [List.idxOf_cons_ne _ hne.symm]
      constructor
      · intro id hid
        obtain ⟨m, hm, rfl⟩ := List.mem_map.mp hid
        rw [List.idxOf_cons_self, hskip m hm]
        exact Nat.succ_pos _
      · rw [List.pairwise_map] at ih ⊢
        refine (ih.sublist List.filter_sublist).imp_of_mem fun hm hk hlt => ?_
        rw [hskip _ hm, hskip _ hk]
        exact Nat.succ_lt_succ hlt

/-! ## Nodes with a link to an id -/

/-- After the links of several nodes that do not stand under an id, those of them stand there that
have a link to it. -/
theorem under_foldl_nodes {nodes : List Node} {table : LinkTable}
    (hnodup : (nodes.map Node.id).Nodup) (hfresh : ∀ n ∈ nodes, n.id ∉ table.under id) :
    (nodes.foldl (fun table n => n.links.foldl (LinkTable.enter n) table) table).under id =
      table.under id ++ (nodes.filter fun n => ∃ link ∈ n.links, link.target = id).map Node.id := by
  induction nodes generalizing table with
  | nil => simp
  | cons n rest ih =>
    rw [List.map_cons, List.nodup_cons] at hnodup
    obtain ⟨hn, hrest⟩ := List.forall_mem_cons.mp hfresh
    have hunder := LinkTable.under_foldl_enter n.links table n id
    rw [List.foldl_cons, ih hnodup.2 ?_, hunder, List.filter_cons]
    · by_cases hlink : ∃ link ∈ n.links, link.target = id
      · simp [hlink, hn]
      · simp [hlink]
    · intro m hm
      rw [hunder]
      split
      · have hne : m.id ≠ n.id := fun heq => hnodup.1 (heq ▸ List.mem_map_of_mem hm)
        simp [hrest m hm, hne]
      · exact hrest m hm

/-- Where ids are distinct, the nodes that have a link to an id are told once and in order. -/
theorem downstream_eq (hnodup : (g.nodes.map Node.id).Nodup) (id : String) :
    g.downstream id =
      (g.nodes.filter fun n => ∃ link ∈ n.links, link.target = id).map Node.id := by
  have hempty : LinkTable.under [] id = [] := rfl
  rw [downstream, linkTable, under_foldl_nodes hnodup (by simp [hempty]), hempty, List.nil_append]

/-! ## Following data links -/

/-- The link leads to a node of the document. -/
def Resolves (d : Document) (link : Link) : Prop :=
  ∃ m ∈ d.nodes, m.id = link.target

/-- What following some links of a node comes to: the nodes that they lead to, each once and in the
order in which they are met, or the first link that leads nowhere. -/
inductive Followed (d : Document) (n : Node) (links : List Link) :
    Except Error (List Node) → Prop where
  | sources {sources : List Node} (hall : ∀ link ∈ links, Resolves d link)
      (hnodes : ∀ u ∈ sources, u ∈ d.nodes)
      (hids : FirstOccurrences (links.map Link.target) (sources.map Node.id)) :
      Followed d n links (.ok sources)
  | stopped {before after : List Link} {link : Link} (hsplit : links = before ++ link :: after)
      (hbefore : ∀ l ∈ before, Resolves d l) (hmissing : ¬ Resolves d link) :
      Followed d n links (.error (.danglingReference n.id link.target))

/-- Following links comes to nodes exactly when all of them lead to nodes. -/
theorem Followed.exists_ok_iff {links : List Link} {result : Except Error (List Node)}
    (h : Followed d n links result) :
    (∃ sources, result = .ok sources) ↔ ∀ link ∈ links, Resolves d link := by
  cases h with
  | sources hall => exact iff_of_true ⟨_, rfl⟩ hall
  | stopped hsplit hbefore hmissing =>
    refine iff_of_false nofun fun hall => hmissing (hall _ ?_)
    rw [hsplit]
    exact List.mem_append_right _ List.mem_cons_self

/-- The nodes that following links comes to are what the links lead to, each once. -/
theorem Followed.firstOccurrences {links : List Link} {sources : List Node}
    (h : Followed d n links (.ok sources)) :
    FirstOccurrences (links.map Link.target) (sources.map Node.id) := by
  cases h with
  | sources _ _ hids => exact hids

theorem exists_follow_iff {outlet : String} :
    (∃ m, (ofDocument d outlet).follow n link = .ok m) ↔ Resolves d link := by
  simp only [follow_eq_ok_iff]
  rw [← Option.ne_none_iff_exists', ne_eq, node?_eq_none_iff, Resolves]
  simp only [not_forall, not_not, exists_prop]
  rfl

theorem followed_dataSources (d : Document) (outlet : String) (n : Node) :
    Followed d n (n.links.filter fun link => link.outlet = some outlet)
      ((ofDocument d outlet).dataSources n) := by
  have hlinks : (ofDocument d outlet).dataLinks n =
      n.links.filter fun link => link.outlet = some outlet := rfl
  rw [dataSources, hlinks]
  cases hfollow : (n.links.filter fun link => link.outlet = some outlet).mapM
      ((ofDocument d outlet).follow n) with
  | ok nodes =>
    have hall := mapM_eq_ok_iff.mp hfollow
    have hids : nodes.map Node.id =
        (n.links.filter fun link => link.outlet = some outlet).map Link.target := by
      rw [← List.forall₂_eq_eq_eq, List.forall₂_map_left_iff, List.forall₂_map_right_iff]
      exact hall.flip.imp fun m link h => id_of_node? (follow_eq_ok_iff.mp h)
    refine .sources (fun link hlink => ?_) (fun u hu => ?_) ?_
    · obtain ⟨m, -, hm⟩ := exists_mem_of_forall₂ hall.flip hlink
      exact exists_follow_iff.mp ⟨m, hm⟩
    · obtain ⟨link, -, hlink⟩ := exists_mem_of_forall₂ hall ((distinct_sublist nodes).subset hu)
      exact mem_of_follow hlink
    · rw [← hids]
      exact firstOccurrences_distinct nodes
  | error e =>
    obtain ⟨before, link, after, hsplit, hbefore, hlink⟩ := mapM_eq_error_iff.mp hfollow
    obtain ⟨hnone, rfl⟩ := follow_eq_error_iff.mp hlink
    refine .stopped hsplit (fun l hl => exists_follow_iff.mp (hbefore l hl)) fun hresolves => ?_
    obtain ⟨m, hm⟩ := exists_follow_iff.mpr hresolves
    rw [hm] at hlink
    cases hlink

/-! ## The graph and its document -/

/-- What is looked up in the graph is told by the document: the one node with an id, the nodes with
a link to an id, and what the data links of a node lead to. -/
structure Represents (g : Graph) (d : Document) : Prop where
  node?_eq : ∀ id, d.nodes.filter (fun n => n.id = id) = (g.node? id).toList
  downstream_eq : ∀ id, g.downstream id = (d.nodes.filter fun n =>
    ∃ group ∈ n.inputs, ∃ link ∈ group.links, link.target = id).map Node.id
  nodup_downstream : ∀ id, (g.downstream id).Nodup
  followed : ∀ n, Followed d n (n.links.filter fun link => link.outlet = some g.dataOutlet)
    (g.dataSources n)
  exists_sources_iff : ∀ n, (∃ sources, g.dataSources n = .ok sources) ↔
    ∀ link ∈ n.links, link.outlet = some g.dataOutlet → Resolves d link
  mem_downstream : ∀ n ∈ d.nodes, ∀ sources, g.dataSources n = .ok sources →
    ∀ u ∈ sources, n.id ∈ g.downstream u.id

/-- The graph of a document that has been read stands for the document, whatever the data outlet. -/
theorem represents_of_parse {source : String} (h : Document.parse source = .ok d)
    (outlet : String) : (ofDocument d outlet).Represents d where
  node?_eq id := by
    have hg : (ofDocument d outlet).Accepted := ⟨source, d, h, rfl⟩
    rcases hfound : (ofDocument d outlet).node? id with _ | n
    · rw [Option.toList_none, List.filter_eq_nil_iff]
      intro n hn
      simpa using node?_eq_none_iff.mp hfound n hn
    · obtain rfl := id_of_node? hfound
      exact filter_eq_singleton_of_nodup hg.nodup_ids (mem_of_node? hfound)
  downstream_eq id := by
    rw [Graph.downstream_eq (Document.nodup_ids_of_parse h)]
    refine congrArg _ (List.filter_congr fun n _ => decide_eq_decide.mpr ?_)
    simp only [Node.links, List.mem_flatMap]
    constructor
    · rintro ⟨link, ⟨group, hgroup, hlink⟩, htarget⟩
      exact ⟨group, hgroup, link, hlink, htarget⟩
    · rintro ⟨group, hgroup, link, hlink, htarget⟩
      exact ⟨link, ⟨group, hgroup, hlink⟩, htarget⟩
  nodup_downstream id := by
    rw [Graph.downstream_eq (Document.nodup_ids_of_parse h)]
    exact (List.filter_sublist.map Node.id).nodup (Document.nodup_ids_of_parse h)
  followed n := followed_dataSources d outlet n
  exists_sources_iff n := by
    rw [(followed_dataSources d outlet n).exists_ok_iff]
    simp only [List.mem_filter, decide_eq_true_eq, and_imp]
    rfl
  mem_downstream n hn sources hsources u hu := by
    have hfollowed := followed_dataSources d outlet n
    rw [hsources] at hfollowed
    have htargets := (hfollowed.firstOccurrences.mem_iff u.id).mp (List.mem_map_of_mem hu)
    obtain ⟨link, hlink, htarget⟩ := List.mem_map.mp htargets
    rw [Graph.downstream_eq (Document.nodup_ids_of_parse h)]
    refine List.mem_map_of_mem (List.mem_filter.mpr ⟨hn, ?_⟩)
    rw [decide_eq_true_iff]
    exact ⟨link, (List.mem_filter.mp hlink).1, htarget⟩

end Graph

/-! ### A tangled document -/

/-- A node with two links to `a` in two groups and one to itself that carry data, and with one more
to `a` that does not. -/
def tangledNode : Node where
  id := "b"
  inputs := [⟨none, [⟨"a", some "outPort"⟩, ⟨"a", some "inPort"⟩]⟩,
    ⟨none, [⟨"b", some "outPort"⟩, ⟨"a", some "outPort"⟩]⟩]

/-- The tangled node in a document in which another node has a link to one that is not there. -/
def tangledDocument : Document := ⟨[⟨"", [{ id := "a" }, tangledNode]⟩,
  ⟨"", [{ id := "c", inputs := [⟨none, [⟨"a", none⟩, ⟨"ghost", some "outPort"⟩]⟩] }]⟩]⟩

/-- The tangled document as a text. -/
def tangledText : String :=
  "[[[\"\",[[\"a\"],[\"b\",null,null,null,[[null,[[\"a\",\"outPort\"],[\"a\",\"inPort\"]]]," ++
  "[null,[[\"b\",\"outPort\"],[\"a\",\"outPort\"]]]]]]]," ++
  "[\"\",[[\"c\",null,null,null,[[null,[[\"a\"],[\"ghost\",\"outPort\"]]]]]]]]]"

namespace Graph

/-- The nodes with links to `a` are told once each, and the node with a link to `ghost` is told
although there is no such node.  The data links of the tangled node lead to two nodes. -/
theorem represents_tangledDocument :
    Document.parse tangledText = .ok tangledDocument ∧
    (ofDocument tangledDocument "outPort").node? "ghost" = none ∧
    (ofDocument tangledDocument "outPort").downstream "a" = ["b", "c"] ∧
    (ofDocument tangledDocument "outPort").downstream "ghost" = ["c"] ∧
    ∃ sources, (ofDocument tangledDocument "outPort").dataSources tangledNode = .ok sources ∧
      FirstOccurrences ["a", "b", "a"] (sources.map Node.id) := by
  have hparse : Document.parse tangledText = .ok tangledDocument :=
    eq_ok_of_toOption (by decide +kernel)
  have hgraph := represents_of_parse hparse "outPort"
  have hresolves : ∀ link ∈ tangledNode.links, link.outlet = some "outPort" →
      ∃ m ∈ tangledDocument.nodes, m.id = link.target := by decide +kernel
  obtain ⟨sources, hsources⟩ := (hgraph.exists_sources_iff tangledNode).mpr hresolves
  have hfollowed := hgraph.followed tangledNode
  rw [hsources] at hfollowed
  refine ⟨hparse, ?_, ?_, ?_, sources, hsources, hfollowed.firstOccurrences⟩
  · rw [← Option.toList_eq_nil_iff, ← hgraph.node?_eq]
    decide +kernel
  · rw [hgraph.downstream_eq]
    decide +kernel
  · rw [hgraph.downstream_eq]
    decide +kernel

end Graph

end Pipewright
