import Mathlib.Algebra.Order.BigOperators.Group.List
import Mathlib.Algebra.Order.Ring.Nat
import Pipewright.Proofs.Graph.Search

/-!
# Where the search ends

The bound on the number of steps is never what ends a run.  A frame has the rest of its links to
follow and then to be left, and a node that has not been met has all of that before it; the sum of
this work goes down with every step and is at most `Graph.work` when a root is entered.  So a run
from a root ends with an empty path or with an error, and between two roots the invariant holds
with an empty path.

* `Search.remaining`: the work that is left; `remaining_lt_of_step` says that it goes down.
* `Search.path_eq_nil_of_run`: a run that does not fail and has room for its work empties the path.
* `Search.AtRest`: the states between two roots.
* `Graph.executionOrder_ok`, `Graph.executionOrder_error`: the state in which the whole search ends.
-/

namespace Pipewright

namespace Search

variable {g : Graph} {s t : Search}

/-! ## The work that is left -/

/-- What is left to do at a frame: to follow the rest of its links and to leave it. -/
def frameWork (f : Frame) : Nat := (f.node.links.drop f.followed).length + 1

/-- What there is to do at a node, unless it has been met. -/
def nodeWork (s : Search) (n : Node) : Nat :=
  if s.mark? n.id = none then n.links.length + 1 else 0

/-- What is left to do at the frames of the path and at the nodes that have not been met. -/
def remaining (g : Graph) (s : Search) : Nat :=
  (s.path.map frameWork).sum + (g.nodes.map s.nodeWork).sum

/-- Following a link is one piece of the work at a frame. -/
theorem frameWork_followed {frame : Frame} {link : Link}
    (hlink : frame.node.links[frame.followed]? = some link) :
    frameWork { frame with followed := frame.followed + 1 } + 1 = frameWork frame := by
  have hlt : frame.followed < frame.node.links.length := (List.getElem?_eq_some_iff.mp hlink).1
  simp only [frameWork, List.length_drop]
  omega

/-- The work at the nodes does not grow while nodes that have been met stay so. -/
theorem sum_nodeWork_le (hmet : ∀ id, t.mark? id = none → s.mark? id = none) :
    (g.nodes.map t.nodeWork).sum ≤ (g.nodes.map s.nodeWork).sum := by
  apply List.sum_le_sum
  intro n _
  by_cases ht : t.mark? n.id = none
  · simp [nodeWork, ht, hmet n.id ht]
  · simp [nodeWork, ht]

/-- Entering a node takes the work at it away from the nodes. -/
theorem sum_nodeWork_enter {n : Node} (hn : n ∈ g.nodes) (hmark : s.mark? n.id = none) :
    (g.nodes.map (s.enter n).nodeWork).sum + (n.links.length + 1) ≤
      (g.nodes.map s.nodeWork).sum := by
  have hsplit : ∀ m, s.nodeWork m =
      (s.enter n).nodeWork m + if m.id = n.id then m.links.length + 1 else 0 := by
    intro m
    by_cases hid : m.id = n.id
    · simp [nodeWork, mark?_enter, hid, hmark]
    · simp [nodeWork, mark?_enter, hid]
  have hsingle : n.links.length + 1 ≤
      (g.nodes.map fun m => if m.id = n.id then m.links.length + 1 else 0).sum :=
    List.le_sum_of_mem (List.mem_map.mpr ⟨n, hn, by simp⟩)
  rw [funext hsplit, List.sum_map_add]
  omega

/-- The work that is left goes down with every step. -/
theorem remaining_lt_of_step (h : Step g s (.ok t)) : t.remaining g < s.remaining g := by
  cases h with
  | @leave frame below hpath hlink =>
    have hle : (g.nodes.map (s.leave frame.node below).nodeWork).sum ≤
        (g.nodes.map s.nodeWork).sum := by
      apply sum_nodeWork_le
      intro id hid
      rw [mark?_leave] at hid
      split at hid
      · cases hid
      · exact hid
    simp only [remaining, path_leave, hpath, List.map_cons, List.sum_cons, frameWork]
    omega
  | @pass frame below link next hpath hlink hnext hmark =>
    have hframe := frameWork_followed hlink
    have hnodes : (s.advance frame below).nodeWork = s.nodeWork := rfl
    simp only [remaining, path_advance, hpath, List.map_cons, List.sum_cons, hnodes]
    omega
  | @enter frame below link next hpath hlink hnext hmark =>
    have hframe := frameWork_followed hlink
    have hmem : next ∈ g.nodes := Graph.mem_of_node? (Graph.follow_eq_ok_iff.mp hnext)
    have hnodes := sum_nodeWork_enter (s := s.advance frame below) hmem hmark
    have hsame : (s.advance frame below).nodeWork = s.nodeWork := rfl
    rw [hsame] at hnodes
    have hnew : frameWork ⟨next, 0⟩ = next.links.length + 1 := rfl
    simp only [remaining, path_enter, path_advance, hpath, List.map_cons, List.sum_cons, hnew]
    omega

/-- A run that does not fail and has room for the work that is left empties the path. -/
theorem path_eq_nil_of_run {n : Nat} (hn : s.remaining g ≤ n) (h : run g n s = .ok t) :
    t.path = [] := by
  induction n generalizing s with
  | zero =>
    cases h
    rw [remaining] at hn
    cases hpath : t.path with
    | nil => rfl
    | cons frame below =>
      rw [hpath, List.map_cons, List.sum_cons, frameWork] at hn
      omega
  | succ n ih =>
    rw [run] at h
    split at h
    · next hnone =>
      cases h
      exact step_eq_none_iff.mp hnone
    · cases h
    · next u hu =>
      have hlt := remaining_lt_of_step (step_eq_some hu)
      exact ih (by omega) h

/-- There is room for the work from a root on. -/
theorem remaining_enter_le {root : Node} (hroot : root ∈ g.nodes) (hpath : s.path = [])
    (hmark : s.mark? root.id = none) : (s.enter root).remaining g ≤ g.work := by
  have hnodes := sum_nodeWork_enter hroot hmark
  have hall : (g.nodes.map s.nodeWork).sum ≤ g.work := by
    rw [Graph.work, ← List.foldr_map, ← List.sum_eq_foldr]
    apply List.sum_le_sum
    intro n _
    rw [nodeWork]
    split <;> omega
  have hnew : frameWork ⟨root, 0⟩ = root.links.length + 1 := rfl
  simp only [remaining, path_enter, hpath, List.map_cons, List.map_nil, List.sum_cons,
    List.sum_nil, hnew]
  omega

/-! ## From root to root -/

/-- The invariant between two roots: nothing is on the path. -/
structure AtRest (g : Graph) (s : Search) : Prop where
  sound : Sound g s
  path_eq_nil : s.path = []

/-- Between two roots the nodes that have been met are those that have been left. -/
theorem AtRest.mem_order (hg : g.Accepted) (hs : AtRest g s) {n : Node} (hn : g.node? n.id = some n)
    (hmark : s.mark? n.id ≠ none) : n ∈ s.order := by
  match h : s.mark? n.id with
  | none => exact absurd h hmark
  | some .entered =>
    rw [hs.sound.entered_iff, hs.path_eq_nil] at h
    simp at h
  | some .left => exact hs.sound.mem_order_of_mark? hg hn h

/-- What has been met stays met. -/
theorem mark?_ne_none_of_step (h : Step g s (.ok t)) {id : String} (hid : s.mark? id ≠ none) :
    t.mark? id ≠ none := by
  cases h with
  | leave hpath hlink =>
    rw [mark?_leave]
    split
    · simp
    · exact hid
  | pass hpath hlink hnext hmark => exact hid
  | enter hpath hlink hnext hmark =>
    rw [mark?_enter]
    split
    · simp
    · exact hid

/-- The search from a root comes to rest; the root has been met then, and what had been met
before. -/
theorem AtRest.searchFrom (hg : g.Accepted) (hs : AtRest g s) {root : Node}
    (hroot : root ∈ g.executionNodes) (h : g.searchFrom s root = .ok t) :
    AtRest g t ∧ t.mark? root.id ≠ none ∧ ∀ id, s.mark? id ≠ none → t.mark? id ≠ none := by
  rw [Graph.searchFrom] at h
  split at h
  · next hmet =>
    cases h
    exact ⟨hs, Option.isSome_iff_ne_none.mp hmet, fun _ hid => hid⟩
  · next hunmet =>
    have hmark : s.mark? root.id = none := by simpa using hunmet
    have hnodes : root ∈ g.nodes := (List.mem_filter.mp hroot).1
    have hmet : ∀ id, s.mark? id ≠ none ∨ id = root.id → (s.enter root).mark? id ≠ none := by
      intro id hid
      rw [mark?_enter]
      split
      · simp
      · next hne => exact hid.resolve_right hne
    obtain ⟨hsound, hstill⟩ := run_ok
      (P := fun u => Sound g u ∧ ∀ id, (s.enter root).mark? id ≠ none → u.mark? id ≠ none)
      (fun u v hu hstep => ⟨hu.1.step hg hstep, fun id hid =>
        mark?_ne_none_of_step hstep (hu.2 id hid)⟩)
      ⟨hs.sound.enter_root hs.path_eq_nil hroot hmark, fun _ hid => hid⟩ h
    have hempty := path_eq_nil_of_run (remaining_enter_le hnodes hs.path_eq_nil hmark) h
    exact ⟨⟨hsound, hempty⟩, hstill _ (hmet _ (.inr rfl)), fun id hid =>
      hstill id (hmet id (.inl hid))⟩

/-- A search from a root that fails does so at a step from a state with the invariant. -/
theorem AtRest.searchFrom_error (hg : g.Accepted) (hs : AtRest g s) {root : Node}
    (hroot : root ∈ g.executionNodes) {e : Error} (h : g.searchFrom s root = .error e) :
    ∃ u, Sound g u ∧ Step g u (.error e) := by
  rw [Graph.searchFrom] at h
  split at h
  · cases h
  · next hunmet =>
    have hmark : s.mark? root.id = none := by simpa using hunmet
    exact run_error (fun u v hu hstep => hu.step hg hstep)
      (hs.sound.enter_root hs.path_eq_nil hroot hmark) h

/-- The searches from some roots come to rest, and all the roots have been met then. -/
theorem AtRest.foldlM_searchFrom (hg : g.Accepted) {roots : List Node}
    (hroots : ∀ root ∈ roots, root ∈ g.executionNodes) (hs : AtRest g s)
    (h : roots.foldlM g.searchFrom s = .ok t) :
    AtRest g t ∧ (∀ root ∈ roots, t.mark? root.id ≠ none) ∧
      ∀ id, s.mark? id ≠ none → t.mark? id ≠ none := by
  induction roots generalizing s with
  | nil =>
    cases h
    exact ⟨hs, by simp, fun _ hid => hid⟩
  | cons root rest ih =>
    rw [List.foldlM_cons] at h
    cases hu : g.searchFrom s root with
    | error e =>
      rw [hu] at h
      cases h
    | ok u =>
      rw [hu] at h
      obtain ⟨hrest, hroot, hstill⟩ := hs.searchFrom hg (hroots root List.mem_cons_self) hu
      obtain ⟨hend, hmet, hstill'⟩ :=
        ih (fun r hr => hroots r (List.mem_cons_of_mem _ hr)) hrest h
      refine ⟨hend, fun r hr => ?_, fun id hid => hstill' id (hstill id hid)⟩
      obtain rfl | hr := List.mem_cons.mp hr
      · exact hstill' _ hroot
      · exact hmet r hr

/-- Searches from some roots that fail do so at a step from a state with the invariant. -/
theorem AtRest.foldlM_searchFrom_error (hg : g.Accepted) {roots : List Node}
    (hroots : ∀ root ∈ roots, root ∈ g.executionNodes) (hs : AtRest g s) {e : Error}
    (h : roots.foldlM g.searchFrom s = .error e) : ∃ u, Sound g u ∧ Step g u (.error e) := by
  induction roots generalizing s with
  | nil => cases h
  | cons root rest ih =>
    rw [List.foldlM_cons] at h
    have hroot := hroots root List.mem_cons_self
    cases hu : g.searchFrom s root with
    | error e' =>
      rw [hu] at h
      cases h
      exact hs.searchFrom_error hg hroot hu
    | ok u =>
      rw [hu] at h
      exact ih (fun r hr => hroots r (List.mem_cons_of_mem _ hr)) (hs.searchFrom hg hroot hu).1 h

end Search

namespace Graph

variable {g : Graph}

/-- Before the first root nothing has been met. -/
theorem atRest_empty (g : Graph) : Search.AtRest g {} := ⟨.empty g, rfl⟩

/-- The order is that of a state at rest, and all execution nodes stand in it. -/
theorem executionOrder_ok (hg : g.Accepted) {order : List Node}
    (h : g.executionOrder = .ok order) :
    ∃ s, Search.AtRest g s ∧ s.order = order ∧ ∀ root ∈ g.executionNodes, root ∈ order := by
  rw [executionOrder] at h
  cases hs : g.executionNodes.foldlM g.searchFrom {} with
  | error e =>
    rw [hs] at h
    cases h
  | ok s =>
    rw [hs] at h
    cases h
    obtain ⟨hrest, hmet, -⟩ := (atRest_empty g).foldlM_searchFrom hg (fun _ hr => hr) hs
    exact ⟨s, hrest, rfl, fun root hroot =>
      hrest.mem_order hg (hg.node?_id_of_mem_executionNodes hroot) (hmet root hroot)⟩

/-- A search that fails does so at a step from a state with the invariant. -/
theorem executionOrder_error (hg : g.Accepted) {e : Error} (h : g.executionOrder = .error e) :
    ∃ s, Search.Sound g s ∧ Search.Step g s (.error e) := by
  rw [executionOrder] at h
  cases hs : g.executionNodes.foldlM g.searchFrom {} with
  | error e' =>
    rw [hs] at h
    cases h
    exact (atRest_empty g).foldlM_searchFrom_error hg (fun _ hr => hr) hs
  | ok s =>
    rw [hs] at h
    cases h

end Graph

end Pipewright
