import Mathlib.Data.List.Perm.Subperm
import Pipewright.Proofs.Graph.Circle
import Pipewright.Proofs.Graph.Loop
import Pipewright.Proofs.Lists

/-!
# The work of the search

A step of the search does one piece of work: it follows the next link of the node at hand, or leaves
the node when there is none.  What has been done once lies behind the search and is not done again,
so over all roots there are no more steps than there are nodes and links.  When the order is found,
the steps are those that leave its nodes and those that follow the links of its nodes.

* `Search.piece?`, `Search.link?`, `Search.entries`: what a step does, and what has been entered.
* `Search.Past`: the pieces of work that lie behind; `Step.past`, `Sound.not_past`.
* `Graph.Traversal.nodup_pieces`: over all roots no piece of work is done twice.
* `Search.spent`: the work that has been done; `Graph.Traversal.length_eq` counts it.
* `Graph.traversal_steps`: the main statement.
-/

namespace Pipewright

namespace Search

variable {g : Graph} {s t : Search} {states : List Search} {r : Except Error Search}
  {p : String × Nat}

/-! ## Pieces of work -/

/-- What the next step does: the id of the node at hand, and the number of its links that have been
followed.  The step follows the link at that place, or leaves the node when there is none. -/
def piece? (s : Search) : Option (String × Nat) :=
  s.path.head?.map fun f => (f.node.id, f.followed)

/-- The link that the next step follows, by the id of its node and its place, unless the step leaves
the node. -/
def link? (s : Search) : Option (String × Nat) :=
  s.path.head?.bind fun f => f.node.links[f.followed]?.map fun _ => (f.node.id, f.followed)

/-- The ids of the nodes that have been put on the path, the latest first.  A node is marked as
entered when it is put there, and no mark is taken back. -/
def entries (s : Search) : List String :=
  (s.marks.filter fun m => m.2 = .entered).map Prod.fst

theorem piece?_of_path {frame : Frame} {below : List Frame} (hpath : s.path = frame :: below) :
    s.piece? = some (frame.node.id, frame.followed) := by
  rw [piece?, hpath]
  rfl

theorem exists_piece? (h : s.path ≠ []) : ∃ p, s.piece? = some p := by
  obtain ⟨frame, below, hpath⟩ := List.exists_cons_of_ne_nil h
  exact ⟨_, piece?_of_path hpath⟩

theorem piece?_of_link? (h : s.link? = some p) : s.piece? = some p := by
  rw [link?, Option.bind_eq_some_iff] at h
  obtain ⟨frame, hframe, hlink⟩ := h
  obtain ⟨_, -, rfl⟩ := Option.map_eq_some_iff.mp hlink
  rw [piece?, hframe]
  rfl

/-- A piece of work lies behind: its node has been left, or is on the path with more links
followed. -/
def Past (s : Search) (p : String × Nat) : Prop :=
  s.mark? p.1 = some .left ∨ ∃ f ∈ s.path, f.node.id = p.1 ∧ p.2 < f.followed

/-- The piece of work that comes next does not lie behind. -/
theorem Sound.not_past (hs : Sound g s) (hp : s.piece? = some p) : ¬ s.Past p := by
  obtain ⟨frame, hframe, rfl⟩ := Option.map_eq_some_iff.mp hp
  obtain ⟨below, hpath⟩ := List.head?_eq_some_iff.mp hframe
  have hentered := hs.mark?_of_path hpath
  rintro (hleft | ⟨f, hf, hid, hlt⟩)
  · exact absurd (hentered.symm.trans hleft) nofun
  · -- the ids on the path differ, so the frame is the one in front
    have hnodup := hs.nodup_path
    have hmem : frame ∈ s.path := hpath ▸ List.mem_cons_self
    obtain rfl := List.inj_on_of_nodup_map hnodup hf hmem hid
    exact absurd hlt (Nat.lt_irrefl _)

/-- A step puts its piece of work behind the search. -/
theorem Step.past_piece (h : Step g s (.ok t)) (hp : s.piece? = some p) : t.Past p := by
  cases h with
  | @leave frame below hpath hlink =>
    cases (piece?_of_path hpath).symm.trans hp
    exact .inl (by rw [mark?_leave, if_pos rfl])
  | @pass frame below link next hpath hlink hnext hmark =>
    cases (piece?_of_path hpath).symm.trans hp
    exact .inr ⟨_, List.mem_cons_self, rfl, Nat.lt_succ_self _⟩
  | @enter frame below link next hpath hlink hnext hmark =>
    cases (piece?_of_path hpath).symm.trans hp
    exact .inr ⟨_, List.mem_cons_of_mem _ List.mem_cons_self, rfl, Nat.lt_succ_self _⟩

/-- What lies behind stays behind when the next link is followed. -/
theorem Past.advance (h : s.Past p) {frame : Frame} {below : List Frame}
    (hpath : s.path = frame :: below) : (s.advance frame below).Past p := by
  obtain hleft | ⟨f, hf, hid, hlt⟩ := h
  · exact .inl hleft
  · rw [hpath] at hf
    obtain rfl | hf := List.mem_cons.mp hf
    · exact .inr ⟨_, List.mem_cons_self, hid, Nat.lt_succ_of_lt hlt⟩
    · exact .inr ⟨f, List.mem_cons_of_mem _ hf, hid, hlt⟩

/-- What lies behind stays behind when a node that has not been met is entered. -/
theorem Past.enter (h : s.Past p) {n : Node} (hmark : s.mark? n.id = none) :
    (s.enter n).Past p := by
  obtain hleft | ⟨f, hf, hid, hlt⟩ := h
  · refine .inl ?_
    rw [mark?_enter, if_neg, hleft]
    intro hid
    rw [hid, hmark] at hleft
    cases hleft
  · exact .inr ⟨f, List.mem_cons_of_mem _ hf, hid, hlt⟩

/-- What lies behind stays behind. -/
theorem Step.past (h : Step g s (.ok t)) (hp : s.Past p) : t.Past p := by
  cases h with
  | @leave frame below hpath hlink =>
    obtain hleft | ⟨f, hf, hid, hlt⟩ := hp
    · refine .inl ?_
      rw [mark?_leave, hleft, ite_self]
    · rw [hpath] at hf
      obtain rfl | hf := List.mem_cons.mp hf
      · exact .inl (by rw [mark?_leave, if_pos hid.symm])
      · exact .inr ⟨f, hf, hid, hlt⟩
  | pass hpath hlink hnext hmark => exact hp.advance hpath
  | enter hpath hlink hnext hmark => exact (hp.advance hpath).enter hmark

/-- The pieces of work of a loop lie behind at its end. -/
theorem Loop.past_pieces (h : Loop g s states (.ok t)) (hp : p ∈ states.filterMap piece?) :
    t.Past p := by
  generalize hr : (Except.ok t : Except Error Search) = r at h
  induction h with
  | done _ => cases hp
  | fail _ => cases hr
  | @next s u states r hstep hrest ih =>
    rw [List.mem_filterMap] at hp
    obtain ⟨v, hv, hpiece⟩ := hp
    obtain rfl | hv := List.mem_cons.mp hv
    · have hu := (step_eq_some hstep).past_piece hpiece
      exact (hrest.keeps (fun _ _ h hstep => hstep.past h) hu).2 t hr.symm
    · exact ih (List.mem_filterMap.mpr ⟨v, hv, hpiece⟩) hr

/-- No piece of work is done twice in a loop, and none that lies behind at its start. -/
theorem Loop.nodup_pieces (hg : g.Accepted) (hs : Sound g s) (h : Loop g s states r) :
    (states.filterMap piece?).Nodup ∧ ∀ p ∈ states.filterMap piece?, ¬ s.Past p := by
  induction h with
  | done _ => simp
  | @fail s e hstep =>
    obtain ⟨p, hpiece⟩ := exists_piece? (path_ne_nil_of_step hstep)
    rw [List.filterMap_cons_some hpiece, List.filterMap_nil]
    exact ⟨List.nodup_singleton _, by simpa using hs.not_past hpiece⟩
  | @next s t states r hstep _ ih =>
    have hstep' := step_eq_some hstep
    obtain ⟨hnodup, hnew⟩ := ih (hs.step hg hstep')
    obtain ⟨p, hpiece⟩ := exists_piece? (path_ne_nil_of_step hstep)
    rw [List.filterMap_cons_some hpiece, List.nodup_cons, List.forall_mem_cons]
    exact ⟨⟨fun hmem => hnew _ hmem (hstep'.past_piece hpiece), hnodup⟩, hs.not_past hpiece,
      fun p hp hpast => hnew p hp (hstep'.past hpast)⟩

/-! ## The work that has been done -/

/-- No frame of the path has followed more links than its node has. -/
def Fits (s : Search) : Prop :=
  ∀ f ∈ s.path, f.followed ≤ f.node.links.length

theorem Fits.enter (hs : s.Fits) (n : Node) : (s.enter n).Fits := by
  intro f hf
  obtain rfl | hf := List.mem_cons.mp hf
  · exact Nat.zero_le _
  · exact hs f hf

theorem Fits.advance (hs : s.Fits) {frame : Frame} {below : List Frame} {link : Link}
    (hpath : s.path = frame :: below) (hlink : frame.node.links[frame.followed]? = some link) :
    (s.advance frame below).Fits := by
  intro f hf
  obtain rfl | hf := List.mem_cons.mp hf
  · exact (List.getElem?_eq_some_iff.mp hlink).1
  · exact hs f (hpath ▸ List.mem_cons_of_mem _ hf)

theorem Step.fits (h : Step g s (.ok t)) (hs : s.Fits) : t.Fits := by
  cases h with
  | leave hpath hlink => exact fun f hf => hs f (hpath ▸ List.mem_cons_of_mem _ hf)
  | pass hpath hlink hnext hmark => exact hs.advance hpath hlink
  | enter hpath hlink hnext hmark => exact (hs.advance hpath hlink).enter _

/-- The work that has been done: the nodes that have been left, with their links, and the links that
the frames of the path have followed. -/
def spent (s : Search) : Nat :=
  (s.order.map fun n => n.links.length + 1).sum + (s.path.map Frame.followed).sum

/-- A step does one piece of work. -/
theorem Step.spent_eq (h : Step g s (.ok t)) (hs : s.Fits) : t.spent = s.spent + 1 := by
  cases h with
  | @leave frame below hpath hlink =>
    -- all links of the node have been followed, and now it is left
    have hle := hs frame (hpath ▸ List.mem_cons_self)
    have hge := List.getElem?_eq_none_iff.mp hlink
    simp only [spent, order_leave, path_leave, hpath, List.map_append, List.map_cons, List.map_nil,
      List.sum_append, List.sum_cons, List.sum_nil]
    omega
  | @pass frame below link next hpath hlink hnext hmark =>
    simp only [spent, order_advance, path_advance, hpath, List.map_cons, List.sum_cons]
    omega
  | @enter frame below link next hpath hlink hnext hmark =>
    simp only [spent, order_enter, order_advance, path_enter, path_advance, hpath, List.map_cons,
      List.sum_cons]
    omega

/-- The steps of a loop are the work that it does. -/
theorem Loop.length_eq (hs : s.Fits) (h : Loop g s states (.ok t)) :
    t.spent = s.spent + states.length := by
  generalize hr : (Except.ok t : Except Error Search) = r at h
  induction h with
  | done _ =>
    cases hr
    rfl
  | fail _ => cases hr
  | next hstep _ ih =>
    have hstep' := step_eq_some hstep
    have hone := hstep'.spent_eq hs
    have hrest := ih (hstep'.fits hs) hr
    rw [List.length_cons]
    omega

/-! ## Nodes that are entered -/

/-- A node that has been put on the path has been met. -/
theorem mark?_ne_none_of_mem_entries {id : String} (h : id ∈ s.entries) : s.mark? id ≠ none := by
  obtain ⟨m, hm, rfl⟩ := List.mem_map.mp h
  rw [mark?, ne_eq, List.lookup_eq_none_iff]
  intro hnone
  have hne := hnone m (List.mem_filter.mp hm).1
  simp at hne

theorem entries_enter (s : Search) (n : Node) : (s.enter n).entries = n.id :: s.entries := by
  rw [entries, enter, List.filter_cons_of_pos (by simp)]
  rfl

theorem entries_leave (s : Search) (n : Node) (below : List Frame) :
    (s.leave n below).entries = s.entries := by
  rw [entries, leave, List.filter_cons_of_neg (by simp)]
  rfl

/-- A node that has not been met has not been put on the path before. -/
theorem nodup_entries_enter (hs : s.entries.Nodup) {n : Node} (hmark : s.mark? n.id = none) :
    (s.enter n).entries.Nodup := by
  rw [entries_enter, List.nodup_cons]
  exact ⟨fun hmem => mark?_ne_none_of_mem_entries hmem hmark, hs⟩

theorem Step.nodup_entries (h : Step g s (.ok t)) (hs : s.entries.Nodup) : t.entries.Nodup := by
  cases h with
  | leave hpath hlink =>
    rw [entries_leave]
    exact hs
  | pass hpath hlink hnext hmark => exact hs
  | enter hpath hlink hnext hmark => exact nodup_entries_enter (s := s.advance _ _) hs hmark

end Search

namespace Graph

open Search (Loop Step)

variable {g : Graph} {s t : Search} {roots : List Node} {states : List Search}
  {r : Except Error Search}

/-! ## From root to root -/

/-- Over all roots no piece of work is done twice, and none that lies behind at the start. -/
theorem Traversal.nodup_pieces (hg : g.Accepted) (h : g.Traversal roots s states r)
    (hroots : ∀ root ∈ roots, root ∈ g.executionNodes) (hs : Search.AtRest g s) :
    (states.filterMap Search.piece?).Nodup ∧ ∀ p ∈ states.filterMap Search.piece?, ¬ s.Past p := by
  induction h with
  | nil s => simp
  | met _ _ ih => exact ih (List.forall_mem_cons.mp hroots).2 hs
  | fail hmark hloop =>
    have hentered := hs.sound.enter_root hs.path_eq_nil (hroots _ List.mem_cons_self) hmark
    obtain ⟨hnodup, hnew⟩ := hloop.nodup_pieces hg hentered
    exact ⟨hnodup, fun p hp hpast => hnew p hp (hpast.enter hmark)⟩
  | @next root rest s t states more r hmark hloop _ ih =>
    obtain ⟨hroot, hrest⟩ := List.forall_mem_cons.mp hroots
    have hentered := hs.sound.enter_root hs.path_eq_nil hroot hmark
    obtain ⟨hnodup, hnew⟩ := hloop.nodup_pieces hg hentered
    have hsound := (hloop.keeps (fun _ _ hu hstep => hu.step hg hstep) hentered).2 t rfl
    obtain ⟨hnodup', hnew'⟩ := ih hrest ⟨hsound, hloop.path_eq_nil⟩
    have hstays : ∀ p, s.Past p → t.Past p := fun p hp =>
      (hloop.keeps (fun _ _ hu hstep => hstep.past hu) (hp.enter hmark)).2 t rfl
    rw [List.filterMap_append, List.nodup_append]
    refine ⟨⟨hnodup, hnodup', ?_⟩, fun p hp => ?_⟩
    · rintro p hp _ hp' rfl
      exact hnew' p hp' (hloop.past_pieces hp)
    · obtain hp | hp := List.mem_append.mp hp
      · exact fun hpast => hnew p hp (hpast.enter hmark)
      · exact fun hpast => hnew' p hp (hstays p hpast)

/-- The steps over all roots are the work that is done. -/
theorem Traversal.length_eq (h : g.Traversal roots s states (.ok t)) (hs : s.Fits) :
    t.spent = s.spent + states.length := by
  generalize hr : (Except.ok t : Except Error Search) = r at h
  induction h with
  | nil s =>
    cases hr
    rfl
  | met _ _ ih => exact ih hs hr
  | fail _ _ => cases hr
  | @next root rest s u states more r hmark hloop _ ih =>
    have hloop' := hloop.length_eq (hs.enter root)
    have hfits := (hloop.keeps (fun _ _ hu hstep => hstep.fits hu) (hs.enter root)).2 u rfl
    have hrest := ih hfits hr
    have hsame : (s.enter root).spent = s.spent := by simp [Search.spent]
    rw [List.length_append]
    omega

/-! ## Counting -/

/-- The pieces of work that there are: for each node its links, by their places, and to leave it. -/
def pieces (g : Graph) : List (String × Nat) :=
  g.nodes.flatMap fun n => (List.range (n.links.length + 1)).map fun k => (n.id, k)

theorem length_pieces (g : Graph) :
    g.pieces.length = g.nodes.length + (g.nodes.map fun n => n.links.length).sum := by
  rw [pieces, List.length_flatMap]
  simp only [List.length_map, List.length_range]
  rw [sum_map_add_one, Nat.add_comm]

/-- What a step does is a piece of work of the graph. -/
theorem mem_pieces (hg : g.Accepted) (hs : Search.Sound g s) (hfits : s.Fits) {p : String × Nat}
    (hp : s.piece? = some p) : p ∈ g.pieces := by
  obtain ⟨frame, hframe, rfl⟩ := Option.map_eq_some_iff.mp hp
  obtain ⟨below, hpath⟩ := List.head?_eq_some_iff.mp hframe
  have hmem : frame ∈ s.path := hpath ▸ List.mem_cons_self
  refine List.mem_flatMap.mpr ⟨frame.node, ?_, List.mem_map.mpr ⟨frame.followed, ?_, rfl⟩⟩
  · exact mem_of_node? ((hs.needed_of_mem_path frame hmem).node?_id hg)
  · exact List.mem_range.mpr (Nat.lt_succ_of_le (hfits frame hmem))

/-- The loops from all execution nodes take no more steps than there are nodes and links. -/
theorem Traversal.length_le (hg : g.Accepted) (h : g.Traversal g.executionNodes {} states r) :
    states.length ≤ g.nodes.length + (g.nodes.map fun n => n.links.length).sum := by
  obtain ⟨hstates, -⟩ := h.keeps (P := fun s => Search.Sound g s ∧ s.Fits)
    (fun _ _ hs hstep => ⟨hs.1.step hg hstep, hstep.fits hs.2⟩)
    (fun _ root hroot hs hpath hmark => ⟨hs.1.enter_root hpath hroot hmark, hs.2.enter root⟩)
    (fun _ hroot => hroot) ⟨.empty g, by simp [Search.Fits]⟩ rfl
  have hsub : states.filterMap Search.piece? ⊆ g.pieces := by
    intro p hp
    obtain ⟨s, hs, hpiece⟩ := List.mem_filterMap.mp hp
    exact mem_pieces hg (hstates s hs).1 (hstates s hs).2 hpiece
  have hall : ∀ s ∈ states, s.piece?.isSome := fun s hs =>
    Option.isSome_iff_exists.mpr (Search.exists_piece? (h.path_ne_nil s hs))
  have hnodup := (h.nodup_pieces hg (fun _ hroot => hroot) (atRest_empty g)).1
  calc states.length = (states.filterMap Search.piece?).length :=
        (List.filterMap_length_eq_length.mpr hall).symm
    _ ≤ g.pieces.length := (hnodup.subperm hsub).length_le
    _ = _ := length_pieces g

/-- No link is followed twice. -/
theorem Traversal.nodup_links (hg : g.Accepted) (h : g.Traversal g.executionNodes {} states r) :
    (states.filterMap Search.link?).Nodup := by
  have hsub : ∀ states : List Search,
      (states.filterMap Search.link?).Sublist (states.filterMap Search.piece?) := by
    intro states
    induction states with
    | nil => exact .slnil
    | cons s rest ih =>
      rcases hlink : s.link? with _ | p
      · rw [List.filterMap_cons_none hlink]
        exact ih.trans ((List.sublist_cons_self s rest).filterMap _)
      · rw [List.filterMap_cons_some hlink,
          List.filterMap_cons_some (Search.piece?_of_link? hlink)]
        exact ih.cons_cons p
  exact (h.nodup_pieces hg (fun _ hroot => hroot) (atRest_empty g)).1.sublist (hsub states)

/-- The loops of the search come to an end, and do each piece of work once.  Over all roots they take
no more steps than there are nodes and links; no node is put on the path twice, and no link is
followed twice.  When the order is found, there is one step for each of its nodes and one for each of
the links of these. -/
theorem traversal_steps (hg : g.Accepted) :
    (∃ states r, g.Traversal g.executionNodes {} states r) ∧
    ∀ states r, g.Traversal g.executionNodes {} states r →
      g.executionOrder = r.map Search.order ∧
      states.length ≤ g.nodes.length + (g.nodes.map fun n => n.links.length).sum ∧
      (∀ s ∈ states, s.entries.Nodup) ∧
      (states.filterMap Search.link?).Nodup ∧
      ∀ order, g.executionOrder = .ok order →
        states.length = order.length + (order.map fun n => n.links.length).sum := by
  refine ⟨exists_traversal g _ _, fun states r h => ⟨h.executionOrder_eq, h.length_le hg, ?_,
    h.nodup_links hg, fun order horder => ?_⟩⟩
  · exact (h.keeps (P := fun s => s.entries.Nodup) (fun _ _ hs hstep => hstep.nodup_entries hs)
      (fun _ _ _ hs _ hmark => Search.nodup_entries_enter hs hmark) (fun _ hroot => hroot)
      List.nodup_nil rfl).1
  · rw [h.executionOrder_eq] at horder
    cases r with
    | error e => cases horder
    | ok t =>
      cases horder
      have hspent := h.length_eq (by simp [Search.Fits])
      rw [Search.spent, h.path_eq_nil rfl, sum_map_add_one] at hspent
      simp only [Search.spent, List.map_nil, List.sum_nil] at hspent
      omega

/-- The search takes a step for each node and each link of the small document, and at the circle it
comes to an end with an error. -/
theorem traversal_smallGraph_circleGraph :
    (∃ states t, smallGraph.Traversal smallGraph.executionNodes {} states (.ok t) ∧
      states.length = 6) ∧
    ∃ states e, circleGraph.Traversal circleGraph.executionNodes {} states (.error e) ∧
      states.length ≤ 6 := by
  constructor
  · obtain ⟨⟨states, r, h⟩, hall⟩ := traversal_steps accepted_smallGraph
    obtain ⟨horder, -, -, -, hcount⟩ := hall states r h
    cases r with
    | error e => cases horder
    | ok t => exact ⟨states, t, h, hcount smallDocument.nodes.reverse rfl⟩
  · obtain ⟨⟨states, r, h⟩, hall⟩ := traversal_steps accepted_circleGraph
    obtain ⟨horder, hle, -⟩ := hall states r h
    cases r with
    | error e => exact ⟨states, e, h, hle⟩
    | ok t => cases horder

end Graph

end Pipewright
