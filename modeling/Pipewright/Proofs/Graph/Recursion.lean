import Pipewright.Graph.Visit
import Pipewright.Proofs.Graph.Circle
import Pipewright.Proofs.Graph.Loop

/-!
# The search and the recursion

The search keeps a path of nodes with the numbers of their links that have been followed.  A visit
of a node by recursion has its path as an argument, and its place among the links in the recursion
itself.  Once a node has been entered, the steps up to the one in which it is left do what the visit
does: they leave the path as it was below the node, and the order that the visit gives; or they come
to a step that fails with the error of the visit.

* `Graph.visit_eq`, `Graph.visitLink`: a visit as one pass through the links of the node.
* `Search.Answers`: the steps from a state do what a recursion tells.
* `Search.answers_links`, `Search.answers_visit`: the links of a node, and the visit of a node.
* `Graph.executionOrder_eq_visitedOrder`: the main statement.
-/

namespace Pipewright

namespace Graph

variable {g : Graph} {path order : List Node} {node next : Node} {link : Link}

/-- The order after a link of a node that is being visited. -/
def visitLink (g : Graph) (path : List Node) (node : Node) (order : List Node) (link : Link) :
    Except Error (List Node) :=
  match hnext : g.follow node link with
  | .error e => .error e
  | .ok next => g.visit (node :: path) order next (mem_of_follow hnext)

theorem visitLink_of_ok (hnext : g.follow node link = .ok next) :
    g.visitLink path node order link = g.visit (node :: path) order next (mem_of_follow hnext) := by
  rw [visitLink]
  split
  · next h => cases h.symm.trans hnext
  · next h =>
    obtain rfl := Except.ok.inj (h.symm.trans hnext)
    rfl

theorem visitLink_of_error {e : Error} (hnext : g.follow node link = .error e) :
    g.visitLink path node order link = .error e := by
  rw [visitLink]
  split
  · next h => exact congrArg _ (Except.error.inj (h.symm.trans hnext))
  · next h => cases h.symm.trans hnext

/-- A node that stands in the order is not visited again. -/
theorem visit_of_mem_order {hnode : node ∈ g.nodes} (horder : node.id ∈ order.map Node.id) :
    g.visit path order node hnode = .ok order := by
  rw [visit, if_pos horder]

/-- A node that is being visited must not be met. -/
theorem visit_of_mem_path {hnode : node ∈ g.nodes} (horder : node.id ∉ order.map Node.id)
    (hpath : node.id ∈ path.map Node.id) :
    g.visit path order node hnode = .error (.cyclicGraph node.id (circleOf path node.id)) := by
  rw [visit, if_neg horder, dif_pos hpath]

/-- Any other node is put after what its links lead to. -/
theorem visit_eq {hnode : node ∈ g.nodes} (horder : node.id ∉ order.map Node.id)
    (hpath : node.id ∉ path.map Node.id) :
    g.visit path order node hnode =
      (do return (← node.links.foldlM (g.visitLink path node) order) ++ [node]) := by
  rw [visit, if_neg horder, dif_neg hpath]
  rfl

end Graph

namespace Search

variable {g : Graph} {s t : Search} {below : List Frame} {r : Except Error (List Node)}

/-- The steps from a state do what a recursion tells.  They lead to the order that it gives, with
the path down to `below`, or to a step that fails with its error. -/
def Answers (g : Graph) (s : Search) (below : List Frame) : Except Error (List Node) → Prop
  | .ok order => ∃ t, Leads g s t ∧ t.path = below ∧ t.order = order
  | .error e => ∃ t, Leads g s t ∧ t.step g = some (.error e)

theorem Answers.of_leads (hst : Leads g s t) (h : Answers g t below r) : Answers g s below r := by
  cases r with
  | error e =>
    obtain ⟨u, htu, hstep⟩ := h
    exact ⟨u, hst.trans htu, hstep⟩
  | ok order =>
    obtain ⟨u, htu, hpath, horder⟩ := h
    exact ⟨u, hst.trans htu, hpath, horder⟩

theorem Answers.of_step (hstep : Step g s (.ok t)) (h : Answers g t below r) :
    Answers g s below r :=
  h.of_leads (.single hstep.step_eq)

/-- The circle that the frames of a path tell is the one that their nodes tell. -/
theorem circle_eq_circleOf (path : List Frame) (id : String) :
    circle path id = Graph.circleOf (path.map Frame.node) id := by
  rw [circle, Graph.circleOf, ← List.map_reverse, List.map_map]
  rfl

/-- The steps through the links of a node do what the recursion does with them, if the steps from a
node that a link leads to do what its visit does. -/
theorem answers_links (hg : g.Accepted) {path : List Node} {node : Node}
    (ih : ∀ (order : List Node) (link : Link) (next : Node) (hnext : g.follow node link = .ok next)
      {s : Search} {below : List Frame}, Sound g s → s.path = ⟨next, 0⟩ :: below →
      below.map Frame.node = node :: path → s.order = order →
      Answers g s below (g.visit (node :: path) order next (Graph.mem_of_follow hnext)))
    {links : List Link} {k : Nat} (hlinks : node.links.drop k = links) (hs : Sound g s)
    (hpath : s.path = ⟨node, k⟩ :: below) (hbelow : below.map Frame.node = path) :
    Answers g s below (do return (← links.foldlM (g.visitLink path node) s.order) ++ [node]) := by
  induction links generalizing s k with
  | nil =>
    -- all links have been followed, so the node is left
    have hlink : node.links[k]? = none :=
      List.getElem?_eq_none_iff.mpr (List.drop_eq_nil_iff.mp hlinks)
    exact ⟨_, .single (Step.leave hpath hlink).step_eq, rfl, rfl⟩
  | cons link rest ihrest =>
    have hlink : node.links[k]? = some link := by
      rw [← List.head?_drop, hlinks, List.head?_cons]
    have hrest : node.links.drop (k + 1) = rest := by
      rw [← List.drop_drop, hlinks, List.drop_one, List.tail_cons]
    rw [List.foldlM_cons]
    rcases hnext : g.follow node link with e | next
    · obtain ⟨hnode, rfl⟩ := Graph.follow_eq_error_iff.mp hnext
      rw [Graph.visitLink_of_error hnext]
      exact ⟨s, .refl, (Step.dangling hpath hlink hnode).step_eq⟩
    rw [Graph.visitLink_of_ok hnext]
    have hids : s.path.map (fun f => f.node.id) = (node :: path).map Node.id := by
      rw [hpath, ← hbelow, List.map_cons, List.map_cons, List.map_map]
      rfl
    match hmark : s.mark? next.id with
    | some .left =>
      have hstep := Step.pass hpath hlink hnext hmark
      rw [Graph.visit_of_mem_order ((hs.left_iff _).mp hmark)]
      exact (ihrest hrest (hs.step hg hstep) rfl).of_step hstep
    | some .entered =>
      have hstep := Step.circle hpath hlink hnext hmark
      have hmem := (hs.entered_iff _).mp hmark
      rw [hids] at hmem
      have hnot : next.id ∉ s.order.map Node.id := by
        rw [← hs.left_iff, hmark]
        nofun
      rw [Graph.visit_of_mem_path hnot hmem]
      refine ⟨s, .refl, hstep.step_eq.trans ?_⟩
      rw [circle_eq_circleOf, path_advance, List.map_cons, hbelow]
    | none =>
      have hstep := Step.enter hpath hlink hnext hmark
      have hvisit := ih s.order link next hnext (hs.step hg hstep) rfl
        (congrArg (node :: ·) hbelow) rfl
      cases hr : g.visit (node :: path) s.order next (Graph.mem_of_follow hnext) with
      | error e =>
        rw [hr] at hvisit
        exact hvisit.of_step hstep
      | ok order =>
        rw [hr] at hvisit
        obtain ⟨t, hst, htpath, rfl⟩ := hvisit.of_step hstep
        have ht : Sound g t := hst.keeps (fun _ _ hu hstep => hu.step hg hstep) hs
        exact (ihrest hrest ht htpath).of_leads hst

/-- A node on the path has not been left, and stands on it once. -/
theorem Sound.notMem (hs : Sound g s) {frame : Frame} (hpath : s.path = frame :: below) :
    frame.node.id ∉ s.order.map Node.id ∧ frame.node.id ∉ (below.map Frame.node).map Node.id := by
  constructor
  · rw [← hs.left_iff, hs.mark?_of_path hpath]
    nofun
  · have hnodup := hs.nodup_path
    rw [hpath, List.map_cons, List.nodup_cons] at hnodup
    rw [List.map_map]
    exact hnodup.1

/-- Once a node has been entered, the steps do what its visit does. -/
theorem answers_visit (hg : g.Accepted) (path order : List Node) (node : Node)
    (hnode : node ∈ g.nodes) (hs : Sound g s) (hpath : s.path = ⟨node, 0⟩ :: below)
    (hbelow : below.map Frame.node = path) (horder : s.order = order) :
    Answers g s below (g.visit path order node hnode) := by
  induction path, order, node, hnode using Graph.visit.induct g generalizing s below with
  | case1 path order node hnode hmem => exact absurd hmem (horder ▸ (hs.notMem hpath).1)
  | case2 path order node hnode _ hmem => exact absurd hmem (hbelow ▸ (hs.notMem hpath).2)
  | case3 path order node hnode hnot hfresh ih =>
    rw [Graph.visit_eq hnot hfresh, ← horder]
    exact answers_links hg ih List.drop_zero hs hpath hbelow

/-- From root to root the search does what the visits of the roots do. -/
theorem AtRest.foldlM_visit (hg : g.Accepted) {roots : List {n // n ∈ g.executionNodes}}
    (hs : AtRest g s) :
    ((roots.map Subtype.val).foldlM g.searchFrom s).map Search.order =
      roots.foldlM (fun order root => g.visit [] order root.1 (List.mem_filter.mp root.2).1)
        s.order := by
  induction roots generalizing s with
  | nil => rfl
  | cons root rest ih =>
    rw [List.map_cons, List.foldlM_cons, List.foldlM_cons]
    have hroot := (List.mem_filter.mp root.2).1
    by_cases hmark : s.mark? root.1.id = none
    · have hentered := hs.sound.enter_root hs.path_eq_nil root.2 hmark
      have hpath : (s.enter root.1).path = [⟨root.1, 0⟩] := by rw [path_enter, hs.path_eq_nil]
      have hvisit := answers_visit hg [] s.order root.1 hroot hentered hpath rfl rfl
      cases hr : g.visit [] s.order root.1 hroot with
      | error e =>
        rw [hr] at hvisit
        obtain ⟨t, hst, hstep⟩ := hvisit
        have hsearch : g.searchFrom s root.1 = .error e :=
          Graph.searchFrom_eq_of_leads hroot hs.path_eq_nil hmark hst (.fail hstep)
        rw [hsearch]
        rfl
      | ok order =>
        rw [hr] at hvisit
        obtain ⟨t, hst, hpath, rfl⟩ := hvisit
        have hsearch : g.searchFrom s root.1 = .ok t :=
          Graph.searchFrom_eq_of_leads hroot hs.path_eq_nil hmark hst (.done hpath)
        rw [hsearch]
        exact ih (hs.searchFrom hg root.2 hsearch).1
    · have hmem := List.mem_map_of_mem (f := Node.id)
        (hs.mem_order hg (hg.node?_id_of_mem_executionNodes root.2) hmark)
      rw [Graph.searchFrom_of_met hmark, Graph.visit_of_mem_order hmem]
      exact ih hs

end Search

namespace Graph

variable {g : Graph}

/-- The search gives the order that the recursion gives, or the same error. -/
theorem executionOrder_eq_visitedOrder (hg : g.Accepted) : g.executionOrder = g.visitedOrder := by
  have hfold : (((g.executionNodes.attach.map Subtype.val).foldlM g.searchFrom {}).map
      Search.order) = g.visitedOrder := (atRest_empty g).foldlM_visit hg
  rw [List.attach_map_subtype_val] at hfold
  rw [← hfold, executionOrder]
  cases g.executionNodes.foldlM g.searchFrom {} <;> rfl

/-- The recursion finds the order of the small document, and the circle. -/
theorem visitedOrder_smallGraph_circleGraph :
    smallGraph.visitedOrder = .ok smallDocument.nodes.reverse ∧
      circleGraph.visitedOrder = .error (.cyclicGraph "a" ["a", "b", "a"]) :=
  ⟨(executionOrder_eq_visitedOrder accepted_smallGraph).symm.trans rfl,
    (executionOrder_eq_visitedOrder accepted_circleGraph).symm.trans rfl⟩

end Graph

end Pipewright
