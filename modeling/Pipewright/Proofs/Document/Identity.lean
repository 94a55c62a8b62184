import Mathlib.Data.List.Induction
import Pipewright.Document.Parse
import Pipewright.Proofs.Graph.Accepted
import Pipewright.Proofs.Lists
import Pipewright.Proofs.Results

/-!
# The ids of a document

The nodes of a document are looked at one by one, each with the ids that have been seen before it.
What comes of that is told by the document as a whole: it is accepted when every node has an id and
no two nodes have the same one, wherever they stand, and otherwise the first node that is at fault
is reported.  A node without an id is never called a repetition.

* `Node.Identified`, `Identified`: nodes with an id, and nodes that can be told apart by theirs.
* `Document.Places`: a node of a document with the nodes before it.
* `Document.FirstFault`: the fault of the first node that is at fault.
* `Document.exists_first`: what is not told apart has a first node at fault.
* `Document.parse_identity`: the main statement.
-/

namespace Pipewright

/-- The id of the node has a character that is not white space. -/
def Node.Identified (n : Node) : Prop := ∃ c ∈ n.id.toList, Text.isSpace c = false

theorem Node.not_identified_iff {n : Node} : ¬ n.Identified ↔ Text.isBlank n.id = true := by
  simp [Identified, Text.isBlank_iff]

/-- Every node has an id, and no two of them have the same one. -/
structure Identified (nodes : List Node) : Prop where
  identified : ∀ n ∈ nodes, n.Identified
  nodup : (nodes.map Node.id).Nodup

theorem identified_nil : Identified [] := ⟨List.forall_mem_nil _, List.nodup_nil⟩

/-- One node more can be told apart when it has an id that the others have not. -/
theorem identified_concat_iff {nodes : List Node} {n : Node} :
    Identified (nodes ++ [n]) ↔ Identified nodes ∧ n.Identified ∧ n.id ∉ nodes.map Node.id := by
  constructor
  · rintro ⟨hid, hnodup⟩
    rw [List.forall_mem_append, List.forall_mem_singleton] at hid
    rw [List.map_append, List.nodup_append] at hnodup
    refine ⟨⟨hid.1, hnodup.1⟩, hid.2, fun hmem => ?_⟩
    exact hnodup.2.2 n.id hmem n.id List.mem_cons_self rfl
  · rintro ⟨⟨hid, hnodup⟩, hn, hnew⟩
    refine ⟨List.forall_mem_append.mpr ⟨hid, List.forall_mem_singleton.mpr hn⟩, ?_⟩
    rw [List.map_append, List.nodup_append]
    refine ⟨hnodup, List.nodup_cons.mpr ⟨List.not_mem_nil, List.nodup_nil⟩, ?_⟩
    intro id hmem other hother heq
    rw [List.map_singleton, List.mem_singleton] at hother
    exact hnew (hother ▸ heq ▸ hmem)

namespace Document

variable {d : Document} {placed before : List (String × Node)} {p : Pipeline} {n : Node}
  {fault : DocumentFault}

/-! ## Looking at the nodes one by one -/

/-- Nodes that can be told apart are passed, and their ids have been seen behind them. -/
theorem idFaultAfter?_append (h : Identified (before.map Prod.snd)) (rest : List (String × Node)) :
    idFaultAfter? [] (before ++ rest) =
      idFaultAfter? (before.map fun q => q.2.id).reverse rest := by
  induction before using List.reverseRecOn generalizing rest with
  | nil => rfl
  | append_singleton before q ih =>
    rw [List.map_append, List.map_singleton, identified_concat_iff, List.map_map] at h
    obtain ⟨hbefore, hid, hnew⟩ := h
    have hfilled : Text.isBlank q.2.id ≠ true := fun hblank =>
      Node.not_identified_iff.mpr hblank hid
    have hunseen : q.2.id ∉ (before.map fun q => q.2.id).reverse := fun hmem =>
      hnew (List.mem_reverse.mp hmem)
    rw [List.append_assoc, ih hbefore, List.map_append, List.reverse_append]
    show idFaultAfter? _ ((q.1, q.2) :: rest) = _
    rw [idFaultAfter?, if_neg hfilled, if_neg hunseen]
    rfl

/-- Nodes that cannot all be told apart have a first one without an id or with an id from before. -/
theorem exists_first (placed : List (String × Node)) :
    Identified (placed.map Prod.snd) ∨ ∃ before q after, placed = before ++ q :: after ∧
      Identified (before.map Prod.snd) ∧
      (q.2.Identified → q.2.id ∈ before.map fun r => r.2.id) := by
  induction placed using List.reverseRecOn with
  | nil => exact .inl identified_nil
  | append_singleton placed q ih =>
    obtain hall | ⟨before, r, after, rfl, hbefore, hr⟩ := ih
    · by_cases hq : q.2.Identified → q.2.id ∈ placed.map fun r => r.2.id
      · exact .inr ⟨placed, q, [], rfl, hall, hq⟩
      · obtain ⟨hid, hnew⟩ := Classical.not_imp.mp hq
        refine .inl ?_
        rw [List.map_append, List.map_singleton, identified_concat_iff, List.map_map]
        exact ⟨hall, hid, hnew⟩
    · exact .inr ⟨before, r, after ++ [q], by simp, hbefore, hr⟩

/-! ## Nodes in their places -/

/-- The node stands in the pipeline behind the other nodes, which are those of the pipelines before
and those before it in its own. -/
inductive Places (d : Document) : List Node → Pipeline → Node → Prop where
  | mk {ps qs : List Pipeline} {p : Pipeline} {ns ms : List Node} {n : Node}
      (hpipelines : d.pipelines = ps ++ p :: qs) (hnodes : p.nodes = ns ++ n :: ms) :
      d.Places (ps.flatMap Pipeline.nodes ++ ns) p n

/-- A node in its place is one of the nodes that are looked at. -/
theorem Places.exists_split {others : List Node} (h : d.Places others p n) :
    ∃ before after, d.placedNodes = before ++ (p.id, n) :: after ∧
      before.map Prod.snd = others := by
  cases h with
  | @mk ps qs _ ns ms _ hpipelines hnodes =>
    refine ⟨(⟨ps⟩ : Document).placedNodes ++ ns.map fun m => (p.id, m),
      (ms.map fun m => (p.id, m)) ++ (⟨qs⟩ : Document).placedNodes, ?_, ?_⟩
    · simp [placedNodes, hpipelines, hnodes]
    · rw [List.map_append, map_snd_placedNodes, List.map_map]
      exact congrArg (_ ++ ·) (List.map_id ns)

/-- Each of the nodes that are looked at is a node in its place. -/
theorem exists_places {q : String × Node} {after : List (String × Node)}
    (h : d.placedNodes = before ++ q :: after) :
    ∃ p, d.Places (before.map Prod.snd) p q.2 ∧ q.1 = p.id := by
  obtain ⟨ps, p, qs, us, vs, hpipelines, hp, rfl⟩ := exists_split_of_flatMap h
  obtain ⟨ns, rest, hnodes, rfl, hrest⟩ := List.map_eq_append_iff.mp hp
  obtain ⟨n, ms, rfl, rfl, -⟩ := List.map_eq_cons_iff.mp hrest
  refine ⟨p, ?_, rfl⟩
  have hbefore : (ps.flatMap (fun p => p.nodes.map fun n => (p.id, n)) ++
      ns.map fun n => (p.id, n)).map Prod.snd = ps.flatMap Pipeline.nodes ++ ns := by
    rw [List.map_append, List.map_map]
    exact congrArg₂ (· ++ ·) (map_snd_placedNodes ⟨ps⟩) (List.map_id ns)
  rw [hbefore]
  exact .mk hpipelines hnodes

/-! ## The first node at fault -/

/-- The fault of the first node of a document that has no id or the id of a node before it. -/
inductive FirstFault (d : Document) : DocumentFault → Prop where
  | blank {before : List Node} {p : Pipeline} {n : Node} (hplace : d.Places before p n)
      (hbefore : Identified before) (hblank : ¬ n.Identified) : d.FirstFault (.blankId p.id)
  | repeated {before : List Node} {p : Pipeline} {n : Node} (hplace : d.Places before p n)
      (hbefore : Identified before) (hid : n.Identified) (hmem : n.id ∈ before.map Node.id) :
      d.FirstFault (.duplicateId n.id)

/-- The nodes of a document are passed when they can be told apart. -/
theorem idFault?_of_identified (h : Identified d.nodes) : d.idFault? = none := by
  rw [← map_snd_placedNodes] at h
  rw [idFault?, ← List.append_nil d.placedNodes, idFaultAfter?_append h, idFaultAfter?]

/-- The first node at fault is reported. -/
theorem idFault?_of_firstFault (h : d.FirstFault fault) : d.idFault? = some fault := by
  cases h with
  | blank hplace hbefore hblank =>
    obtain ⟨before, after, hplaced, rfl⟩ := hplace.exists_split
    rw [idFault?, hplaced, idFaultAfter?_append hbefore, idFaultAfter?,
      if_pos (Node.not_identified_iff.mp hblank)]
  | @repeated _ _ n hplace hbefore hid hmem =>
    obtain ⟨before, after, hplaced, rfl⟩ := hplace.exists_split
    have hfilled : Text.isBlank n.id ≠ true := fun hblank =>
      Node.not_identified_iff.mpr hblank hid
    have hseen : n.id ∈ (before.map fun q => q.2.id).reverse := by
      rw [List.map_map] at hmem
      exact List.mem_reverse.mpr hmem
    rw [idFault?, hplaced, idFaultAfter?_append hbefore, idFaultAfter?, if_neg hfilled,
      if_pos hseen]

/-- When the nodes cannot be told apart, one is the first at fault. -/
theorem exists_firstFault (h : ¬ Identified d.nodes) : ∃ fault, d.FirstFault fault := by
  rw [← map_snd_placedNodes] at h
  obtain ⟨before, q, after, hplaced, hbefore, hq⟩ := (exists_first d.placedNodes).resolve_left h
  obtain ⟨p, hplace, -⟩ := exists_places hplaced
  by_cases hid : q.2.Identified
  · refine ⟨_, .repeated hplace hbefore hid ?_⟩
    rw [List.map_map]
    exact hq hid
  · exact ⟨_, .blank hplace hbefore hid⟩

/-- A text that decodes to a document is read as that document unless its ids are at fault. -/
theorem parse_of_decoded {source : String} (hread : decoder.parse source = .ok d) :
    parse source = d.idFault?.elim (.ok d) fun fault => .error (.document fault) := by
  cases hfault : d.idFault? with
  | none => simp [parse, hread, hfault]
  | some fault => simp [parse, hread, hfault]

/-- A text that decodes to a document is read as that document exactly when every node has an id and
no two nodes have the same one, in one pipeline or in two.  Any other such text is refused for the
first node that is at fault: for its pipeline when it has no id, and else for its id. -/
theorem parse_identity {source : String} (hread : decoder.parse source = .ok d) :
    (parse source = .ok d ↔ (∀ n ∈ d.nodes, n.Identified) ∧ (d.nodes.map Node.id).Nodup) ∧
    (parse source ≠ .ok d → ∃ fault, parse source = .error (.document fault)) ∧
    ∀ fault, parse source = .error (.document fault) ↔ d.FirstFault fault := by
  have hparse := parse_of_decoded hread
  by_cases hall : Identified d.nodes
  · rw [idFault?_of_identified hall, Option.elim_none] at hparse
    refine ⟨iff_of_true hparse ⟨hall.identified, hall.nodup⟩, fun h => absurd hparse h, ?_⟩
    intro fault
    rw [hparse]
    refine iff_of_false nofun fun hfirst => ?_
    have hnone := idFault?_of_firstFault hfirst
    rw [idFault?_of_identified hall] at hnone
    cases hnone
  · obtain ⟨first, hfirst⟩ := exists_firstFault hall
    rw [idFault?_of_firstFault hfirst, Option.elim_some] at hparse
    rw [hparse]
    refine ⟨iff_of_false nofun fun h => hall ⟨h.1, h.2⟩, fun _ => ⟨first, rfl⟩, fun fault => ?_⟩
    constructor
    · intro h
      cases h
      exact hfirst
    · intro h
      have heq := idFault?_of_firstFault h
      rw [idFault?_of_firstFault hfirst] at heq
      rw [Option.some.inj heq]

/-- A text with a node whose id is a wide blank, behind a pipeline of its own for another node, and
before nodes that repeat the ids of both. -/
def unnamedSource : String :=
  "\x7b\"pipelines\":[\x7b\"id\":\"p\",\"nodes\":[\x7b\"id\":\"a\"\x7d]\x7d,\x7b\"id\":\"q\",\"nodes\":" ++
  "[\x7b\"id\":\"\u2003\"\x7d,\x7b\"id\":\"a\"\x7d,\x7b\"id\":\"\u2003\"\x7d]\x7d]\x7d"

/-- The document of the text. -/
def unnamedDocument : Document :=
  ⟨[⟨"p", [{ id := "a" }]⟩, ⟨"q", [{ id := "\u2003" }, { id := "a" }, { id := "\u2003" }]⟩]⟩

theorem parse_unnamedSource : decoder.parse unnamedSource = .ok unnamedDocument ∧
    parse unnamedSource = .error (.document (.blankId "q")) := by
  have hread : decoder.parse unnamedSource = .ok unnamedDocument :=
    eq_ok_of_toOption (by decide +kernel)
  have hplace : unnamedDocument.Places [{ id := "a" }]
      ⟨"q", [{ id := "\u2003" }, { id := "a" }, { id := "\u2003" }]⟩ { id := "\u2003" } :=
    @Places.mk unnamedDocument [⟨"p", [{ id := "a" }]⟩] [] _ [] _ _ rfl rfl
  have hbefore : Identified [({ id := "a" } : Node)] :=
    ⟨List.forall_mem_singleton.mpr ⟨'a', by decide, rfl⟩, by decide⟩
  have hblank : ¬ ({ id := "\u2003" } : Node).Identified :=
    Node.not_identified_iff.mpr (by decide)
  exact ⟨hread, ((parse_identity hread).2.2 _).mpr (.blank hplace hbefore hblank)⟩

end Document

end Pipewright
