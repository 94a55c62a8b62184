import Pipewright.Document.Parse
import Pipewright.Graph.Reach
import Pipewright.Proofs.Document.RoundTrip

/-!
# Graphs of documents that have been read

Reading a document refuses ids that are used twice, so in the graph of a document that has been
read an id names one node.  That is all the later arguments know about such a graph: a node is
found under its own id, and two nodes with one id are one node.

* `Document.nodup_ids_of_parse`: the ids of a document that has been read are distinct.
* `Graph.Accepted`: the graphs of documents that have been read.
* `Graph.accepted_ofDocument`: documents in normal form have such graphs.
* `Graph.Accepted.node?_id`, `Graph.Accepted.eq_of_id_eq`: a node of such a graph is the one found
  under its id, and the only one that has it.
-/

namespace Pipewright

namespace Document

/-- The nodes of a document are its placed nodes without the places. -/
theorem map_snd_placedNodes (d : Document) : d.placedNodes.map Prod.snd = d.nodes := by
  simp [placedNodes, nodes, List.map_flatMap, Function.comp_def]

/-- Without a fault, the ids are distinct and none of them has been seen before. -/
theorem nodup_of_idFaultAfter?_eq_none {seen : List String} {placed : List (String × Node)}
    (h : idFaultAfter? seen placed = none) :
    (placed.map fun p => p.2.id).Nodup ∧ ∀ p ∈ placed, p.2.id ∉ seen := by
  induction placed generalizing seen with
  | nil => simp
  | cons p rest ih =>
    obtain ⟨pipeline, node⟩ := p
    rw [idFaultAfter?] at h
    split at h
    · simp at h
    · split at h
      · simp at h
      · next hseen =>
        obtain ⟨hnodup, hfresh⟩ := ih h
        rw [List.map_cons, List.nodup_cons, List.mem_map]
        refine ⟨⟨?_, hnodup⟩, ?_⟩
        · rintro ⟨q, hq, heq⟩
          exact hfresh q hq (heq ▸ List.mem_cons_self)
        · intro q hq
          obtain rfl | hq := List.mem_cons.mp hq
          · exact hseen
          · exact fun hmem => hfresh q hq (List.mem_cons_of_mem _ hmem)

/-- The ids of a document that has been read are distinct. -/
theorem nodup_ids_of_parse {source : String} {d : Document} (h : parse source = .ok d) :
    (d.nodes.map Node.id).Nodup := by
  rw [parse] at h
  split at h
  · cases h
  · split at h
    · cases h
    · next hfault =>
      cases h
      have hnodup := (nodup_of_idFaultAfter?_eq_none hfault).1
      rwa [← map_snd_placedNodes, List.map_map]

end Document

namespace Graph

variable {g : Graph} {m n : Node}

/-- The graph of a document that has been read from a text, with any data outlet. -/
def Accepted (g : Graph) : Prop :=
  ∃ source d, Document.parse source = .ok d ∧ g = ofDocument d g.dataOutlet

/-- The graph of a document in normal form, with its ids in order, is one of these: the document is
read from the text that is written for it. -/
theorem accepted_ofDocument {d : Document} (h : d.Normal) (hids : d.idFault? = none)
    (outlet : String) : (ofDocument d outlet).Accepted :=
  ⟨d.toValue.compact, d, Document.parse_compact_of_normal h hids, rfl⟩

theorem Accepted.nodup_ids (hg : g.Accepted) : (g.nodes.map Node.id).Nodup := by
  obtain ⟨source, d, hparse, heq⟩ := hg
  rw [heq]
  exact Document.nodup_ids_of_parse hparse

/-- Where ids are distinct, a node is the one found under its id. -/
theorem find?_id_of_nodup {nodes : List Node} (hnodup : (nodes.map Node.id).Nodup)
    (hn : n ∈ nodes) : (nodes.find? fun m => m.id = n.id) = some n := by
  induction nodes with
  | nil => simp at hn
  | cons k rest ih =>
    rw [List.map_cons, List.nodup_cons] at hnodup
    rw [List.find?_cons]
    by_cases hk : k.id = n.id
    · obtain rfl | hn := List.mem_cons.mp hn
      · simp
      · exact absurd (hk ▸ List.mem_map_of_mem hn) hnodup.1
    · have hn' : n ∈ rest := (List.mem_cons.mp hn).resolve_left fun h => hk (h ▸ rfl)
      simp only [hk, decide_false]
      exact ih hnodup.2 hn'

/-- A node of the graph of a document that has been read is the one found under its id. -/
theorem Accepted.node?_id (hg : g.Accepted) (hn : n ∈ g.nodes) : g.node? n.id = some n :=
  find?_id_of_nodup hg.nodup_ids hn

/-- Two nodes of such a graph with one id are one node. -/
theorem Accepted.eq_of_id_eq (hg : g.Accepted) (hm : m ∈ g.nodes) (hn : n ∈ g.nodes)
    (h : m.id = n.id) : m = n := by
  have hfound := hg.node?_id hm
  rw [h, hg.node?_id hn] at hfound
  exact (Option.some.inj hfound).symm

/-- An execution node is found under its id. -/
theorem Accepted.node?_id_of_mem_executionNodes (hg : g.Accepted) (hn : n ∈ g.executionNodes) :
    g.node? n.id = some n :=
  hg.node?_id (List.mem_filter.mp hn).1

/-! ## Following links -/

/-- A link leads to a node exactly when that is the node found under its target. -/
theorem follow_eq_ok_iff {link : Link} :
    g.follow n link = .ok m ↔ g.node? link.target = some m := by
  rw [follow]
  cases g.node? link.target <;> simp

/-- A link leads nowhere exactly when no node is found under its target. -/
theorem follow_eq_error_iff {link : Link} {e : Error} :
    g.follow n link = .error e ↔
      g.node? link.target = none ∧ e = .danglingReference n.id link.target := by
  rw [follow]
  cases g.node? link.target <;> simp [eq_comm]

/-- What a link leads to is the node found under its own id. -/
theorem node?_id_of_follow {link : Link} (h : g.follow n link = .ok m) : g.node? m.id = some m := by
  have hm := follow_eq_ok_iff.mp h
  rwa [id_of_node? hm]

/-- What links lead to, and where they start, is found under its own id. -/
theorem node?_id_of_reaches (hn : g.node? n.id = some n) (h : g.Reaches n m) :
    g.node? m.id = some m := by
  cases h with
  | refl => exact hn
  | tail _ hlink =>
    obtain ⟨link, -, hfollow⟩ := hlink
    exact node?_id_of_follow hfollow

/-- A needed node is found under its id. -/
theorem Needed.node?_id (hg : g.Accepted) (h : g.Needed n) : g.node? n.id = some n := by
  obtain ⟨root, hroot, hreach⟩ := h
  exact node?_id_of_reaches (hg.node?_id_of_mem_executionNodes hroot) hreach

end Graph

/-! ## A small document -/

/-- A node that is no step, and two steps that have a link to it.  One of the steps writes the
file that the other one reads. -/
def smallDocument : Document := ⟨[⟨"", [
  { id := "d", kind := .execution, operator := some .r,
    attributes := { filename := some "d", memory := none, dependencies := ["x"] },
    inputs := [⟨none, [⟨"b", some "outPort"⟩, ⟨"n", none⟩]⟩] },
  { id := "b", kind := .execution, operator := some .r,
    attributes := { filename := some "b", memory := none, outputs := ["x"] },
    inputs := [⟨none, [⟨"n", none⟩]⟩] },
  { id := "n" }]⟩]⟩

/-- The small document as a text, with records as arrays. -/
def smallText : String :=
  "[[[\"\",[[\"d\",\"execution_node\",\"r-node\",[null,\"d\",null,null,null,null,[\"x\"]]," ++
  "[[null,[[\"b\",\"outPort\"],[\"n\"]]]]],[\"b\",\"execution_node\",\"r-node\"," ++
  "[null,\"b\",null,null,null,null,[],[\"x\"]],[[null,[[\"n\"]]]]],[\"n\"]]]]]"

theorem parse_smallText : Document.parse smallText = .ok smallDocument :=
  eq_ok_of_toOption (by decide +kernel)

/-- The graph of the small document. -/
def smallGraph : Graph := .ofDocument smallDocument Graph.defaultOutlet

theorem accepted_smallGraph : smallGraph.Accepted :=
  ⟨smallText, smallDocument, parse_smallText, rfl⟩

end Pipewright
