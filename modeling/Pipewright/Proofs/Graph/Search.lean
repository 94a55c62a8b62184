import Pipewright.Graph.Order
import Pipewright.Keyed
import Pipewright.Proofs.Graph.Accepted

/-!
# The invariant of the search

The state of the search has three parts that tell the same story: the marks say which nodes have
been entered and which have been left, the path holds the frames of those that have been entered
and not left, and the order those that have been left.  `Search.Sound` says how the parts agree
and what each frame has behind it: every frame but the top one has just followed the link that
leads to the frame above it, and all links before that one lead to nodes that have been left.

* `Search.Step`: what one step can do, one constructor for each case; `step_eq_some` reads it off, and
  `Step.step_eq` says that it is done.
* `Search.Settled`, `Search.Waits`, `Search.Stacked`: what the frames of a path have behind them.
* `Search.LinksBack`: every link of a node leads to a node before it in a list.
* `Search.Sound`: the invariant, with `Sound.empty` and `Sound.step`.
* `Search.run_ok`, `Search.run_error`: what is kept by steps is kept by a run.
-/

namespace Pipewright

namespace Search

variable {g : Graph} {s t : Search} {order : List Node}

/-! ## Steps -/

/-- The state in which one more link of the node at hand counts as followed. -/
def advance (s : Search) (frame : Frame) (below : List Frame) : Search :=
  { s with path := { frame with followed := frame.followed + 1 } :: below }

theorem mark?_enter (s : Search) (n : Node) (id : String) :
    (s.enter n).mark? id = if id = n.id then some .entered else s.mark? id :=
  lookup_cons_eq id n.id _ _

theorem mark?_leave (s : Search) (n : Node) (below : List Frame) (id : String) :
    (s.leave n below).mark? id = if id = n.id then some .left else s.mark? id :=
  lookup_cons_eq id n.id _ _

@[simp] theorem mark?_advance (s : Search) (frame : Frame) (below : List Frame) (id : String) :
    (s.advance frame below).mark? id = s.mark? id := rfl

@[simp] theorem path_enter (s : Search) (n : Node) : (s.enter n).path = ⟨n, 0⟩ :: s.path := rfl

@[simp] theorem order_enter (s : Search) (n : Node) : (s.enter n).order = s.order := rfl

@[simp] theorem path_leave (s : Search) (n : Node) (below : List Frame) :
    (s.leave n below).path = below := rfl

@[simp] theorem order_leave (s : Search) (n : Node) (below : List Frame) :
    (s.leave n below).order = s.order ++ [n] := rfl

@[simp] theorem path_advance (s : Search) (frame : Frame) (below : List Frame) :
    (s.advance frame below).path = { frame with followed := frame.followed + 1 } :: below := rfl

@[simp] theorem order_advance (s : Search) (frame : Frame) (below : List Frame) :
    (s.advance frame below).order = s.order := rfl

/-- What one step can do to a state whose path has the node at hand in front. -/
inductive Step (g : Graph) (s : Search) : Except Error Search → Prop where
  /-- All links of the node at hand have been followed, so it is left. -/
  | leave {frame : Frame} {below : List Frame} (hpath : s.path = frame :: below)
      (hlink : frame.node.links[frame.followed]? = none) :
      Step g s (.ok (s.leave frame.node below))
  /-- The next link leads nowhere. -/
  | dangling {frame : Frame} {below : List Frame} {link : Link} (hpath : s.path = frame :: below)
      (hlink : frame.node.links[frame.followed]? = some link)
      (hnode : g.node? link.target = none) :
      Step g s (.error (.danglingReference frame.node.id link.target))
  /-- The next link leads to a node that has been left. -/
  | pass {frame : Frame} {below : List Frame} {link : Link} {next : Node}
      (hpath : s.path = frame :: below)
      (hlink : frame.node.links[frame.followed]? = some link)
      (hnext : g.follow frame.node link = .ok next) (hmark : s.mark? next.id = some .left) :
      Step g s (.ok (s.advance frame below))
  /-- The next link leads to a node on the path. -/
  | circle {frame : Frame} {below : List Frame} {link : Link} {next : Node}
      (hpath : s.path = frame :: below)
      (hlink : frame.node.links[frame.followed]? = some link)
      (hnext : g.follow frame.node link = .ok next) (hmark : s.mark? next.id = some .entered) :
      Step g s (.error (.cyclicGraph next.id (circle (s.advance frame below).path next.id)))
  /-- The next link leads to a node that has not been met. -/
  | enter {frame : Frame} {below : List Frame} {link : Link} {next : Node}
      (hpath : s.path = frame :: below)
      (hlink : frame.node.links[frame.followed]? = some link)
      (hnext : g.follow frame.node link = .ok next) (hmark : s.mark? next.id = none) :
      Step g s (.ok ((s.advance frame below).enter next))

/-- There is no step exactly when the path is empty. -/
theorem step_eq_none_iff : s.step g = none ↔ s.path = [] := by
  rw [step]
  cases hpath : s.path with
  | nil => simp
  | cons frame below =>
    cases hlink : frame.node.links[frame.followed]? <;> simp [hlink]

/-- A step does one of five things. -/
theorem step_eq_some {r : Except Error Search} (h : s.step g = some r) : Step g s r := by
  rw [step] at h
  split at h
  · cases h
  · next frame below hpath =>
    split at h
    · next hlink =>
      cases h
      exact .leave hpath hlink
    · next link hlink =>
      obtain rfl := Option.some.inj h
      cases hnext : g.follow frame.node link with
      | error e =>
        obtain ⟨hnode, rfl⟩ := Graph.follow_eq_error_iff.mp hnext
        exact .dangling hpath hlink hnode
      | ok next =>
        have hok : ∀ f : Node → Except Error Search, (Except.ok next >>= f) = f next := fun _ => rfl
        rw [hok]
        dsimp only
        split
        · next hmark => exact .pass hpath hlink hnext hmark
        · next hmark => exact .circle hpath hlink hnext hmark
        · next hmark => exact .enter hpath hlink hnext hmark

/-- The step that follows a link to a node is told by the mark of that node. -/
theorem step_of_follow {frame : Frame} {below : List Frame} {link : Link} {next : Node}
    (hpath : s.path = frame :: below) (hlink : frame.node.links[frame.followed]? = some link)
    (hnext : g.follow frame.node link = .ok next) :
    s.step g = some (match s.mark? next.id with
      | some .left => .ok (s.advance frame below)
      | some .entered =>
        .error (.cyclicGraph next.id (circle (s.advance frame below).path next.id))
      | none => .ok ((s.advance frame below).enter next)) := by
  simp only [step, hpath, hlink, hnext]
  rfl

/-- What a step can do is what it does. -/
theorem Step.step_eq {r : Except Error Search} (h : Step g s r) : s.step g = some r := by
  cases h with
  | leave hpath hlink => simp only [step, hpath, hlink]
  | dangling hpath hlink hnode =>
    simp only [step, hpath, hlink, Graph.follow_eq_error_iff.mpr ⟨hnode, rfl⟩]
    rfl
  | pass hpath hlink hnext hmark => rw [step_of_follow hpath hlink hnext, hmark]
  | circle hpath hlink hnext hmark => rw [step_of_follow hpath hlink hnext, hmark]
  | enter hpath hlink hnext hmark => rw [step_of_follow hpath hlink hnext, hmark]

/-! ## What the frames have behind them -/

/-- The first `k` links of a node lead to nodes of a list. -/
def Settled (g : Graph) (order : List Node) (n : Node) (k : Nat) : Prop :=
  ∀ i < k, ∀ link, n.links[i]? = some link → ∃ m ∈ order, g.follow n link = .ok m

/-- The frames of a path wait for a node: the one in front has followed the link to it last, its
links before that one are settled, and it is waited for by the frames below. -/
def Waits (g : Graph) (order : List Node) : Node → List Frame → Prop
  | _, [] => True
  | next, frame :: below =>
    (∃ i, frame.followed = i + 1 ∧ Settled g order frame.node i ∧
      ∃ link, frame.node.links[i]? = some link ∧ g.follow frame.node link = .ok next) ∧
    Waits g order frame.node below

/-- What the frames of a path have behind them: the links that the one in front has followed are
settled, and the frames below wait for it. -/
def Stacked (g : Graph) (order : List Node) : List Frame → Prop
  | [] => True
  | frame :: below => Settled g order frame.node frame.followed ∧ Waits g order frame.node below

theorem Settled.mono {n : Node} {k : Nat} {order' : List Node} (h : Settled g order n k)
    (hsub : order ⊆ order') : Settled g order' n k := by
  intro i hi link hlink
  obtain ⟨m, hm, hfollow⟩ := h i hi link hlink
  exact ⟨m, hsub hm, hfollow⟩

theorem Waits.mono {order' : List Node} (hsub : order ⊆ order') :
    ∀ {n : Node} {path : List Frame}, Waits g order n path → Waits g order' n path
  | _, [], _ => trivial
  | _, _ :: _, ⟨⟨i, hi, hsettled, hlink⟩, hbelow⟩ =>
    ⟨⟨i, hi, hsettled.mono hsub, hlink⟩, hbelow.mono hsub⟩

/-- One more link is settled when it leads to a node of the list. -/
theorem Settled.succ {n m : Node} {k : Nat} {link : Link} (h : Settled g order n k)
    (hlink : n.links[k]? = some link) (hfollow : g.follow n link = .ok m) (hm : m ∈ order) :
    Settled g order n (k + 1) := by
  intro i hi l hl
  obtain hlt | rfl := Nat.lt_succ_iff_lt_or_eq.mp hi
  · exact h i hlt l hl
  · obtain rfl := Option.some.inj (hlink.symm.trans hl)
    exact ⟨m, hm, hfollow⟩

/-- When the node that is waited for joins the list, the frames have no link open. -/
theorem Waits.stacked {n : Node} {path : List Frame} (h : Waits g order n path) :
    Stacked g (order ++ [n]) path := by
  cases path with
  | nil => trivial
  | cons frame below =>
    obtain ⟨⟨i, hi, hsettled, link, hlink, hfollow⟩, hbelow⟩ := h
    have hsub : order ⊆ order ++ [n] := List.subset_append_left _ _
    refine ⟨?_, hbelow.mono hsub⟩
    rw [hi]
    exact (hsettled.mono hsub).succ hlink hfollow (List.mem_append_right _ List.mem_cons_self)

/-- Each frame waits for the one above it, so links lead up the path. -/
theorem Waits.linksTo {n : Node} {frame : Frame} {below : List Frame}
    (h : Waits g order n (frame :: below)) : g.LinksTo frame.node n := by
  obtain ⟨⟨i, -, -, link, hlink, hfollow⟩, -⟩ := h
  exact ⟨link, List.mem_of_getElem? hlink, hfollow⟩

/-- Every link of a node of a list leads to a node before it. -/
def LinksBack (g : Graph) (order : List Node) : Prop :=
  ∀ before n after, order = before ++ n :: after →
    ∀ link ∈ n.links, ∃ m ∈ before, g.follow n link = .ok m

/-- A node whose links lead to nodes of the list may come last. -/
theorem LinksBack.concat {n : Node} (h : LinksBack g order)
    (hn : ∀ link ∈ n.links, ∃ m ∈ order, g.follow n link = .ok m) :
    LinksBack g (order ++ [n]) := by
  intro before k after heq
  obtain rfl | ⟨after', last, rfl⟩ := List.eq_nil_or_concat after
  · obtain ⟨rfl, hk⟩ := List.append_inj' heq rfl
    obtain rfl := List.head_eq_of_cons_eq hk
    exact hn
  · rw [List.concat_eq_append, ← List.cons_append, ← List.append_assoc] at heq
    exact h before k after' (List.append_inj' heq rfl).1

/-! ## The invariant -/

/-- The parts of a state of the search agree. -/
structure Sound (g : Graph) (s : Search) : Prop where
  entered_iff : ∀ id, s.mark? id = some .entered ↔ id ∈ s.path.map fun f => f.node.id
  left_iff : ∀ id, s.mark? id = some .left ↔ id ∈ s.order.map Node.id
  nodup_path : (s.path.map fun f => f.node.id).Nodup
  nodup_order : (s.order.map Node.id).Nodup
  stacked : Stacked g s.order s.path
  linksBack : LinksBack g s.order
  needed_of_mem_path : ∀ f ∈ s.path, g.Needed f.node
  needed_of_mem_order : ∀ n ∈ s.order, g.Needed n

namespace Sound

/-- Before the search has started nothing has been met. -/
theorem empty (g : Graph) : Sound g {} where
  entered_iff := by simp [mark?]
  left_iff := by simp [mark?]
  nodup_path := List.nodup_nil
  nodup_order := List.nodup_nil
  stacked := trivial
  linksBack := by simp [LinksBack]
  needed_of_mem_path := by simp
  needed_of_mem_order := by simp

/-- The node at hand has been entered. -/
theorem mark?_of_path (hs : Sound g s) {frame : Frame} {below : List Frame}
    (hpath : s.path = frame :: below) : s.mark? frame.node.id = some .entered := by
  rw [hs.entered_iff, hpath]
  exact List.mem_cons_self

/-- A node found under the id of a needed node that has been left is that node. -/
theorem mem_order_of_mark? (hg : g.Accepted) (hs : Sound g s) {n : Node}
    (hn : g.node? n.id = some n) (hmark : s.mark? n.id = some .left) : n ∈ s.order := by
  obtain ⟨m, hm, hid⟩ := List.mem_map.mp ((hs.left_iff n.id).mp hmark)
  have hfound := (hs.needed_of_mem_order m hm).node?_id hg
  rw [hid, hn] at hfound
  obtain rfl := Option.some.inj hfound
  exact hm

/-- All links of a node that is left lead to nodes that have been left before. -/
theorem exists_mem_order (hs : Sound g s) {frame : Frame} {below : List Frame}
    (hpath : s.path = frame :: below) (hlink : frame.node.links[frame.followed]? = none) :
    ∀ link ∈ frame.node.links, ∃ m ∈ s.order, g.follow frame.node link = .ok m := by
  intro link hmem
  obtain ⟨i, hi, rfl⟩ := List.getElem_of_mem hmem
  have hstacked := hs.stacked
  rw [hpath] at hstacked
  have hlen : frame.node.links.length ≤ frame.followed := List.getElem?_eq_none_iff.mp hlink
  exact hstacked.1 i (by omega) _ (List.getElem?_eq_getElem hi)

/-- The invariant is kept when the node at hand is left. -/
theorem leave (hs : Sound g s) {frame : Frame} {below : List Frame}
    (hpath : s.path = frame :: below) (hlink : frame.node.links[frame.followed]? = none) :
    Sound g (s.leave frame.node below) := by
  have hnodup := hs.nodup_path
  rw [hpath, List.map_cons, List.nodup_cons] at hnodup
  have hentered := hs.mark?_of_path hpath
  have hstacked := hs.stacked
  rw [hpath] at hstacked
  have hneeded := hs.needed_of_mem_path
  rw [hpath] at hneeded
  refine ⟨fun id => ?_, fun id => ?_, hnodup.2, ?_, hstacked.2.stacked, ?_, ?_, ?_⟩
  · rw [mark?_leave, path_leave]
    split
    · next hid => simpa [hid] using hnodup.1
    · next hid => rw [hs.entered_iff, hpath, List.map_cons, List.mem_cons, or_iff_right hid]
  · rw [mark?_leave, order_leave, List.map_append, List.mem_append]
    split
    · next hid => simp [hid]
    · next hid => rw [hs.left_iff]; simp [hid]
  · rw [order_leave, List.map_append, List.map_singleton]
    refine List.nodup_append.mpr ⟨hs.nodup_order, by simp, ?_⟩
    rintro id hid _ hlast rfl
    obtain rfl := List.mem_singleton.mp hlast
    rw [(hs.left_iff _).mpr hid] at hentered
    cases hentered
  · exact hs.linksBack.concat (hs.exists_mem_order hpath hlink)
  · exact fun f hf => hneeded f (List.mem_cons_of_mem _ hf)
  · intro n hn
    obtain hn | hn := List.mem_append.mp hn
    · exact hs.needed_of_mem_order n hn
    · rw [List.mem_singleton.mp hn]
      exact hneeded frame List.mem_cons_self

/-- The invariant is kept when a link to a node that has been left is followed. -/
theorem pass (hg : g.Accepted) (hs : Sound g s) {frame : Frame} {below : List Frame} {link : Link}
    {next : Node} (hpath : s.path = frame :: below)
    (hlink : frame.node.links[frame.followed]? = some link)
    (hnext : g.follow frame.node link = .ok next) (hmark : s.mark? next.id = some .left) :
    Sound g (s.advance frame below) := by
  have hstacked := hs.stacked
  rw [hpath] at hstacked
  have hids : (s.advance frame below).path.map (fun f => f.node.id) =
      s.path.map fun f => f.node.id := by
    rw [hpath]
    rfl
  have hmem := hs.mem_order_of_mark? hg (Graph.node?_id_of_follow hnext) hmark
  refine ⟨fun id => ?_, hs.left_iff, ?_, hs.nodup_order, ?_, hs.linksBack, ?_,
    hs.needed_of_mem_order⟩
  · rw [mark?_advance, hids]
    exact hs.entered_iff id
  · rw [hids]
    exact hs.nodup_path
  · exact ⟨hstacked.1.succ hlink hnext hmem, hstacked.2⟩
  · have hneeded := hs.needed_of_mem_path
    rw [hpath] at hneeded
    intro f hf
    obtain rfl | hf := List.mem_cons.mp hf
    · exact hneeded frame List.mem_cons_self
    · exact hneeded f (List.mem_cons_of_mem _ hf)

/-- The invariant is kept when a needed node that has not been met is entered.  The frames of the
path may have followed more links before that, so long as they wait for the node. -/
theorem enter (hs : Sound g s) {n : Node} {path : List Frame}
    (hpath : path.map Frame.node = s.path.map Frame.node) (hwaits : Waits g s.order n path)
    (hneeded : g.Needed n) (hmark : s.mark? n.id = none) :
    Sound g ({ s with path := path }.enter n) := by
  have hids : path.map (fun f => f.node.id) = s.path.map fun f => f.node.id := by
    have h := congrArg (List.map Node.id) hpath
    rwa [List.map_map, List.map_map] at h
  have hfresh : n.id ∉ path.map fun f => f.node.id := by
    rw [hids, ← hs.entered_iff, hmark]
    simp
  refine ⟨fun id => ?_, fun id => ?_, ?_, hs.nodup_order, ?_, hs.linksBack, ?_,
    hs.needed_of_mem_order⟩
  · rw [mark?_enter, path_enter, List.map_cons, List.mem_cons]
    split
    · next hid => simp [hid]
    · next hid => rw [or_iff_right hid, hids]; exact hs.entered_iff id
  · rw [mark?_enter, order_enter]
    split
    · next hid => rw [← hs.left_iff, hid, hmark]; simp
    · exact hs.left_iff id
  · rw [path_enter, List.map_cons, List.nodup_cons]
    exact ⟨hfresh, hids ▸ hs.nodup_path⟩
  · exact ⟨fun i hi => absurd hi (Nat.not_lt_zero i), hwaits⟩
  · intro f hf
    obtain rfl | hf := List.mem_cons.mp hf
    · exact hneeded
    · obtain ⟨f', hf', hnode⟩ := List.mem_map.mp (hpath ▸ List.mem_map_of_mem hf)
      rw [← hnode]
      exact hs.needed_of_mem_path f' hf'

/-- What the node at hand has a link to is needed. -/
theorem needed_next (hs : Sound g s) {frame : Frame} {below : List Frame} {link : Link}
    {next : Node} (hpath : s.path = frame :: below)
    (hlink : frame.node.links[frame.followed]? = some link)
    (hnext : g.follow frame.node link = .ok next) : g.Needed next := by
  have hframe : g.Needed frame.node :=
    hs.needed_of_mem_path frame (hpath ▸ List.mem_cons_self)
  exact hframe.tail ⟨link, List.mem_of_getElem? hlink, hnext⟩

/-- Once the link to the next node has been followed, the path waits for that node. -/
theorem waits_next (hs : Sound g s) {frame : Frame} {below : List Frame} {link : Link}
    {next : Node} (hpath : s.path = frame :: below)
    (hlink : frame.node.links[frame.followed]? = some link)
    (hnext : g.follow frame.node link = .ok next) :
    Waits g s.order next (s.advance frame below).path := by
  have hstacked := hs.stacked
  rw [hpath] at hstacked
  exact ⟨⟨frame.followed, rfl, hstacked.1, link, hlink, hnext⟩, hstacked.2⟩

/-- Every step that does not fail keeps the invariant. -/
theorem step (hg : g.Accepted) (hs : Sound g s) (h : Step g s (.ok t)) : Sound g t := by
  cases h with
  | leave hpath hlink => exact hs.leave hpath hlink
  | pass hpath hlink hnext hmark => exact hs.pass hg hpath hlink hnext hmark
  | enter hpath hlink hnext hmark =>
    refine hs.enter ?_ (hs.waits_next hpath hlink hnext) (hs.needed_next hpath hlink hnext) hmark
    rw [hpath]
    rfl

/-- The search may start from an execution node that has not been met, once the path is empty. -/
theorem enter_root (hs : Sound g s) (hempty : s.path = []) {root : Node}
    (hroot : root ∈ g.executionNodes) (hmark : s.mark? root.id = none) :
    Sound g (s.enter root) :=
  hs.enter rfl (hempty ▸ trivial) ⟨root, hroot, .refl⟩ hmark

end Sound

/-! ## Runs -/

/-- What every step keeps is kept by a run. -/
theorem run_ok {P : Search → Prop} (hP : ∀ s t, P s → Step g s (.ok t) → P t) {n : Nat}
    (hs : P s) (h : run g n s = .ok t) : P t := by
  induction n generalizing s with
  | zero =>
    cases h
    exact hs
  | succ n ih =>
    rw [run] at h
    split at h
    · cases h
      exact hs
    · cases h
    · next u hu => exact ih (hP s u hs (step_eq_some hu)) h

/-- A run that fails does so at a state that has what every step keeps. -/
theorem run_error {P : Search → Prop} (hP : ∀ s t, P s → Step g s (.ok t) → P t) {n : Nat}
    {e : Error} (hs : P s) (h : run g n s = .error e) : ∃ t, P t ∧ Step g t (.error e) := by
  induction n generalizing s with
  | zero => cases h
  | succ n ih =>
    rw [run] at h
    split at h
    · cases h
    · next e' he =>
      cases h
      exact ⟨s, hs, step_eq_some he⟩
    · next u hu => exact ih (hP s u hs (step_eq_some hu)) h

end Search

end Pipewright
