import Mathlib.Data.List.Chain
import Pipewright.Proofs.Graph.Loop

/-!
# The parts of the search agree

A state of the search is told in four parts that change on their own: the marks, the frames of the
path, the links that each frame has followed, and the order.  In every state in which the loop takes
a step they agree.  The path holds what has been entered and not left, and the order what has been
left.  The frames tell how the search came to where it is: each has followed the link to the frame
above it last, and whatever it followed before that has been left.

So a node that has been entered is found on the path whenever a link leads to it, and the circle
that is told starts there.

* `Frame.LedLastTo`: the link that a frame has followed last leads to a node.
* `Search.LeftUpTo`: the first links of a node lead to nodes that have been left.
* `Search.Coherent`: the parts of a state agree; `Search.Sound.coherent` reads it off the invariant.
* `Search.position?`, `Search.circleFrom`: the place of a node on a path, and the circle from there.
* `Search.Sound.exists_position`: a node that is met after it has been entered is on the path.
* `Graph.searchFrom_coherent`: the main statement.
-/

namespace Pipewright

/-- The link that the frame has followed last leads to a node. -/
def Frame.LedLastTo (g : Graph) (f : Frame) (n : Node) : Prop :=
  ∃ i link, f.followed = i + 1 ∧ f.node.links[i]? = some link ∧ g.follow f.node link = .ok n

namespace Search

variable {g : Graph} {s : Search} {order : List Node} {next : Node}

/-- The first `k` links of a node lead to nodes that have been left. -/
def LeftUpTo (g : Graph) (s : Search) (n : Node) (k : Nat) : Prop :=
  ∀ i < k, ∀ link, n.links[i]? = some link →
    ∃ m, g.follow n link = .ok m ∧ s.mark? m.id = some .left

/-- The marks, the path with the links that its frames have followed, and the order agree. -/
structure Coherent (g : Graph) (s : Search) : Prop where
  entered_iff : ∀ id, s.mark? id = some .entered ↔ id ∈ s.path.map fun f => f.node.id
  nodup_path : (s.path.map fun f => f.node.id).Nodup
  left_iff : ∀ id, s.mark? id = some .left ↔ id ∈ s.order.map Node.id
  /-- Each frame has followed the link to the frame above it last. -/
  isChain : s.path.IsChain fun above f => f.LedLastTo g above.node
  /-- What a frame followed before its last link has been left. -/
  leftUpTo : ∀ f ∈ s.path, LeftUpTo g s f.node (f.followed - 1)
  /-- At the node at hand, what the last link leads to has been left as well. -/
  leftUpTo_head : ∀ f ∈ s.path.head?, LeftUpTo g s f.node f.followed

/-! ## The frames of a path -/

/-- Frames that wait for the node of a frame form a chain with that frame. -/
theorem Waits.isChain_frames {top : Frame} {path : List Frame} (h : Waits g order top.node path) :
    (top :: path).IsChain fun above f => f.LedLastTo g above.node := by
  induction path generalizing top with
  | nil => exact List.isChain_singleton top
  | cons frame below ih =>
    obtain ⟨⟨i, hi, -, link, hlink, hfollow⟩, hbelow⟩ := h
    exact List.isChain_cons_cons.mpr ⟨⟨i, link, hi, hlink, hfollow⟩, ih hbelow⟩

/-- Frames that wait have their links settled but for the last one followed. -/
theorem Waits.settled {path : List Frame} (h : Waits g order next path) :
    ∀ f ∈ path, Settled g order f.node (f.followed - 1) := by
  induction path generalizing next with
  | nil => exact List.forall_mem_nil _
  | cons frame below ih =>
    obtain ⟨⟨i, hi, hsettled, -⟩, hbelow⟩ := h
    refine List.forall_mem_cons.mpr ⟨?_, ih hbelow⟩
    rwa [hi, Nat.add_sub_cancel]

/-- The frames of a path form a chain. -/
theorem Stacked.isChain {path : List Frame} (h : Stacked g order path) :
    path.IsChain fun above f => f.LedLastTo g above.node := by
  cases path with
  | nil => exact .nil
  | cons top below => exact h.2.isChain_frames

/-- The frames of a path have their links settled but for the last one followed. -/
theorem Stacked.settled {path : List Frame} (h : Stacked g order path) :
    ∀ f ∈ path, Settled g order f.node (f.followed - 1) := by
  cases path with
  | nil => exact List.forall_mem_nil _
  | cons top below =>
    exact List.forall_mem_cons.mpr ⟨fun i hi => h.1 i (by omega), h.2.settled⟩

/-- The node at hand has all links settled that have been followed. -/
theorem Stacked.settled_head {path : List Frame} (h : Stacked g order path) :
    ∀ f ∈ path.head?, Settled g order f.node f.followed := by
  rintro f hf
  obtain ⟨below, rfl⟩ := List.head?_eq_some_iff.mp hf
  exact h.1

/-- What is settled has been left. -/
theorem Sound.leftUpTo (hs : Sound g s) {n : Node} {k : Nat} (h : Settled g s.order n k) :
    LeftUpTo g s n k := by
  intro i hi link hlink
  obtain ⟨m, hm, hfollow⟩ := h i hi link hlink
  exact ⟨m, hfollow, (hs.left_iff m.id).mpr (List.mem_map_of_mem hm)⟩

/-- The parts of a state with the invariant agree. -/
theorem Sound.coherent (hs : Sound g s) : s.Coherent g where
  entered_iff := hs.entered_iff
  nodup_path := hs.nodup_path
  left_iff := hs.left_iff
  isChain := hs.stacked.isChain
  leftUpTo f hf := hs.leftUpTo (hs.stacked.settled f hf)
  leftUpTo_head f hf := hs.leftUpTo (hs.stacked.settled_head f hf)

/-! ## Where a circle starts -/

/-- The ids along a path, from the root on. -/
def idsFromRoot (path : List Frame) : List String :=
  path.reverse.map fun f => f.node.id

/-- The place of the node with an id on a path, counted from the root. -/
def position? (path : List Frame) (id : String) : Option Nat :=
  (idsFromRoot path).findIdx? (· = id)

/-- The ids on a path from a place on, and an id behind them. -/
def circleFrom (path : List Frame) (start : Nat) (id : String) : List String :=
  (idsFromRoot path).drop start ++ [id]

/-- A circle that is told starts at the place of its node. -/
theorem circle_of_position? {path : List Frame} {id : String} {i : Nat}
    (h : position? path id = some i) : circle path id = circleFrom path i id := by
  obtain ⟨-, hi⟩ := List.findIdx?_eq_some_iff_findIdx_eq.mp h
  have hdrop : (idsFromRoot path).dropWhile (· ≠ id) = (idsFromRoot path).drop i := by
    rw [List.dropWhile_eq_drop_findIdx_not, ← hi]
    simp only [ne_eq, decide_not, Bool.not_not]
  rw [circleFrom, ← hdrop]
  rfl

/-- A node whose id is on the path has a place there. -/
theorem exists_position? {path : List Frame} {id : String}
    (h : id ∈ path.map fun f => f.node.id) :
    ∃ i f, position? path id = some i ∧ path.reverse[i]? = some f ∧ f.node.id = id := by
  have hsome : (position? path id).isSome := by
    rw [position?, List.findIdx?_isSome, List.any_eq_true]
    refine ⟨id, ?_, decide_eq_true rfl⟩
    rwa [idsFromRoot, List.map_reverse, List.mem_reverse]
  obtain ⟨i, hi⟩ := Option.isSome_iff_exists.mp hsome
  obtain ⟨hlt, hid, -⟩ := List.findIdx?_eq_some_iff_getElem.mp hi
  have hlt' : i < path.reverse.length := by rwa [idsFromRoot, List.length_map] at hlt
  refine ⟨i, path.reverse[i], hi, List.getElem?_eq_getElem hlt', ?_⟩
  simpa [idsFromRoot] using hid

/-- The next step follows a link to a node. -/
def Follows (g : Graph) (s : Search) (next : Node) : Prop :=
  ∃ frame below link, s.path = frame :: below ∧ frame.node.links[frame.followed]? = some link ∧
    g.follow frame.node link = .ok next

/-- A node that is met after it has been entered is on the path, and the circle is told from its
place there. -/
theorem Sound.exists_position (hg : g.Accepted) (hs : Sound g s) (h : s.Follows g next)
    (hmark : s.mark? next.id = some .entered) :
    ∃ i f, position? s.path next.id = some i ∧ s.path.reverse[i]? = some f ∧ f.node = next ∧
      s.step g = some (.error (.cyclicGraph next.id (circleFrom s.path i next.id))) := by
  obtain ⟨frame, below, link, hpath, hlink, hnext⟩ := h
  obtain ⟨i, f, hi, hf, hid⟩ := exists_position? ((hs.entered_iff next.id).mp hmark)
  have hmem : f ∈ s.path := List.mem_reverse.mp (List.mem_of_getElem? hf)
  have hnode : f.node = next := by
    have hfound := (hs.needed_of_mem_path f hmem).node?_id hg
    rw [hid, Graph.node?_id_of_follow hnext] at hfound
    exact (Option.some.inj hfound).symm
  -- the link has been followed when the circle is told, which changes no node on the path
  have hsame : circle (s.advance frame below).path next.id = circle s.path next.id := by
    simp only [circle, path_advance, hpath, List.reverse_cons, List.map_append, List.map_cons]
  refine ⟨i, f, hi, hf, hnode, ?_⟩
  rw [step_of_follow hpath hlink hnext, hmark]
  simp only [hsame, circle_of_position? hi]

end Search

namespace Graph

open Search (Loop)

variable {g : Graph} {s : Search} {before after : List Node}

/-- Between two roots nothing is on the path and nothing has been entered that has not been left.
From a root that has not been met on, the parts of the state agree whenever the loop takes a step;
and a node that it meets after it has been entered is found on the path, from where the circle is
told. -/
theorem searchFrom_coherent (hg : g.Accepted) (hroots : g.executionNodes = before ++ after)
    (hs : before.foldlM g.searchFrom {} = .ok s) :
    (s.Coherent g ∧ s.path = [] ∧ ∀ id, s.mark? id ≠ some .entered) ∧
    ∀ root rest, after = root :: rest → s.mark? root.id = none →
      (∃ states, Loop g (s.enter root) states (g.searchFrom s root)) ∧
      ∀ states r, Loop g (s.enter root) states r → ∀ u ∈ states, u.Coherent g ∧
        ∀ next, u.Follows g next → u.mark? next.id = some .entered →
          ∃ i f, Search.position? u.path next.id = some i ∧ u.path.reverse[i]? = some f ∧
            f.node = next ∧
            u.step g =
              some (.error (.cyclicGraph next.id (Search.circleFrom u.path i next.id))) := by
  have hrest : Search.AtRest g s :=
    ((atRest_empty g).foldlM_searchFrom hg
      (fun _ hr => hroots ▸ List.mem_append_left _ hr) hs).1
  refine ⟨⟨hrest.sound.coherent, hrest.path_eq_nil, fun id hid => ?_⟩, ?_⟩
  · rw [hrest.sound.entered_iff, hrest.path_eq_nil] at hid
    exact List.not_mem_nil hid
  rintro root rest rfl hmark
  have hroot : root ∈ g.executionNodes := hroots ▸ List.mem_append_right _ List.mem_cons_self
  refine ⟨?_, fun states r hloop u hu => ?_⟩
  · obtain ⟨states, r, hloop⟩ := Search.exists_loop g (s.enter root)
    have hnode : root ∈ g.nodes := (List.mem_filter.mp hroot).1
    exact ⟨states, searchFrom_eq_of_loop hnode hrest.path_eq_nil hmark hloop ▸ hloop⟩
  · have hsound : Search.Sound g u :=
      (hloop.keeps (fun _ _ hv hstep => hv.step hg hstep)
        (hrest.sound.enter_root hrest.path_eq_nil hroot hmark)).1 u hu
    exact ⟨hsound.coherent, fun _ hnext hentered => hsound.exists_position hg hnext hentered⟩

/-- A node with links to others at one inlet. -/
def linkedNode (id : String) (kind : NodeKind) (targets : List String) : Node :=
  { id, kind, inputs := [⟨none, targets.map fun t => ⟨t, none⟩⟩] }

/-- Two steps that share a node.  The second one also has a link to a circle of two others. -/
def lassoDocument : Document := ⟨[⟨"", [linkedNode "x" .execution ["s"], { id := "s" },
  linkedNode "c" .execution ["s", "a"], linkedNode "a" .unspecified ["b"],
  linkedNode "b" .unspecified ["s", "a"]]⟩]⟩

/-- That document as a text. -/
def lassoText : String :=
  "[[[\"\",[[\"x\",\"execution_node\",null,null,[[null,[[\"s\"]]]]],[\"s\"]," ++
  "[\"c\",\"execution_node\",null,null,[[null,[[\"s\"],[\"a\"]]]]]," ++
  "[\"a\",null,null,null,[[null,[[\"b\"]]]]],[\"b\",null,null,null,[[null,[[\"s\"],[\"a\"]]]]]]]]]"

/-- The graph of that document. -/
def lassoGraph : Graph := .ofDocument lassoDocument defaultOutlet

/-- The state between the two steps. -/
def lassoRest : Search where
  marks := [("x", .left), ("s", .left), ("s", .entered), ("x", .entered)]
  order := [{ id := "s" }, linkedNode "x" .execution ["s"]]

/-- The state in which the circle is closed. -/
def lassoEnd : Search where
  marks := [("b", .entered), ("a", .entered), ("c", .entered)] ++ lassoRest.marks
  path := [⟨linkedNode "b" .unspecified ["s", "a"], 1⟩, ⟨linkedNode "a" .unspecified ["b"], 1⟩,
    ⟨linkedNode "c" .execution ["s", "a"], 2⟩]
  order := lassoRest.order

theorem loop_lassoGraph :
    ∃ states, Loop lassoGraph (lassoRest.enter (linkedNode "c" .execution ["s", "a"])) states
      (.error (.cyclicGraph "a" ["a", "b", "a"])) ∧ lassoEnd ∈ states :=
  ⟨_, .next rfl (.next rfl (.next rfl (.next rfl (.fail (s := lassoEnd) rfl)))), by simp⟩

/-- The search from the second step closes the circle at the node in the second place of the path,
and tells it from there. -/
theorem searchFrom_lassoGraph_coherent :
    Document.parse lassoText = .ok lassoDocument ∧
    [linkedNode "x" .execution ["s"]].foldlM lassoGraph.searchFrom {} = .ok lassoRest ∧
    lassoRest.Coherent lassoGraph ∧ (∀ id, lassoRest.mark? id ≠ some .entered) ∧
    lassoEnd.Coherent lassoGraph ∧
    ∃ f, Search.position? lassoEnd.path "a" = some 1 ∧ lassoEnd.path.reverse[1]? = some f ∧
      f.node = linkedNode "a" .unspecified ["b"] ∧
      lassoEnd.step lassoGraph =
        some (.error (.cyclicGraph "a" (Search.circleFrom lassoEnd.path 1 "a"))) := by
  have hread : Document.parse lassoText = .ok lassoDocument := eq_ok_of_toOption (by decide +kernel)
  have hs : [linkedNode "x" .execution ["s"]].foldlM lassoGraph.searchFrom {} = .ok lassoRest := rfl
  have hroots : lassoGraph.executionNodes =
      [linkedNode "x" .execution ["s"]] ++ [linkedNode "c" .execution ["s", "a"]] := rfl
  obtain ⟨⟨hcoherent, -, hnone⟩, hsearch⟩ :=
    searchFrom_coherent ⟨lassoText, lassoDocument, hread, rfl⟩ hroots hs
  obtain ⟨-, hstates⟩ := hsearch _ [] rfl rfl
  obtain ⟨states, hloop, hend⟩ := loop_lassoGraph
  obtain ⟨hcoherent', hfound⟩ := hstates states _ hloop lassoEnd hend
  obtain ⟨i, f, hi, hf, hnode, hstep⟩ :=
    hfound (linkedNode "a" .unspecified ["b"]) ⟨_, _, _, rfl, rfl, rfl⟩ rfl
  have hplace : Search.position? lassoEnd.path "a" = some 1 := rfl
  obtain rfl := Option.some.inj (hi.symm.trans hplace)
  exact ⟨hread, hs, hcoherent, hnone, hcoherent', f, hplace, hf, hnode, hstep⟩

end Graph

end Pipewright
