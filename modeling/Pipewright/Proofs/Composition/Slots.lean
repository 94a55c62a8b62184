import Pipewright.Proofs.Lists
import Pipewright.Proofs.Results
import Pipewright.Proofs.Text.Lines
import Pipewright.Skeleton

/-!
# The places of a skeleton

A text that is a skeleton has one segment for each of its lines, and each of the three places in one
segment.  What is put in a place takes the lines of its entries: an entry without line feeds takes
one line, and each line feed in an entry takes one more.

* `Skeleton.Reads`: what a line of a skeleton is; `Skeleton.parse_ok`: what a skeleton is.
* `Skeleton.exists_slot`: each place is there.
* `Skeleton.Segment.lines`, `Skeleton.render_eq_unlines`: the lines of the text that is made.
* `Skeleton.Takes`, `Skeleton.takes`: how many of them a place takes.
-/

namespace Pipewright

theorem Slot.mem_all (s : Slot) : s ∈ all := by
  cases s <;> decide

namespace Skeleton

variable {line source : String} {number : Nat} {seen : List Slot} {segment : Segment}
  {segments : List Segment} {skeleton : Skeleton}

/-! ## Reading -/

/-- What a line of a skeleton is: a text without markers, or a marker with white space around it. -/
inductive Reads : String → Segment → Prop where
  | text {line : String} (hnone : Slot.inLine? line = none) : Reads line (.text line)
  | slot {line : String} {s : Slot} (hfound : Slot.inLine? line = some s)
      (halone : Text.trim line = s.marker) : Reads line (.slot s (indentOf line))

theorem segmentOf_ok (h : segmentOf number seen line = .ok segment) :
    Reads line segment ∧ ∀ s, segment.slot? = some s → s ∉ seen := by
  rw [segmentOf] at h
  split at h
  · next hnone =>
    cases h
    exact ⟨.text hnone, nofun⟩
  · next s hfound =>
    split at h
    · cases h
    · next halone =>
      split at h
      · cases h
      · next hnew =>
        cases h
        refine ⟨.slot hfound (Decidable.not_not.mp halone), ?_⟩
        rintro _ ⟨⟩
        exact hnew

/-- The places that segments hold. -/
def slotsOf (segments : List Segment) : List Slot :=
  segments.filterMap Segment.slot?

/-- Every line has its segment, and every place that has not been seen before is in one of them. -/
theorem parseLines_ok {lines : List String} (h : parseLines number seen lines = .ok segments) :
    List.Forall₂ Reads lines segments ∧ (slotsOf segments).Nodup ∧
      (∀ s ∈ slotsOf segments, s ∉ seen) ∧ ∀ s, s ∈ seen ∨ s ∈ slotsOf segments := by
  induction lines generalizing number seen segments with
  | nil =>
    rw [parseLines] at h
    split at h
    · cases h
    · next hall =>
      cases h
      refine ⟨.nil, List.nodup_nil, fun s hs => absurd hs List.not_mem_nil, fun s => .inl ?_⟩
      simpa using List.find?_eq_none.mp hall s s.mem_all
  | cons line rest ih =>
    obtain ⟨segment, hsegment, h⟩ := bind_eq_ok_iff.mp h
    obtain ⟨others, hothers, h⟩ := bind_eq_ok_iff.mp h
    cases h
    obtain ⟨hreads, hnew⟩ := segmentOf_ok hsegment
    obtain ⟨hrest, hnodup, hfresh, hall⟩ := ih hothers
    cases hslot : segment.slot? with
    | none =>
      have hslots : slotsOf (segment :: others) = slotsOf others :=
        List.filterMap_cons_none hslot
      rw [hslot, Option.toList_none, List.nil_append] at hfresh hall
      rw [hslots]
      exact ⟨.cons hreads hrest, hnodup, hfresh, hall⟩
    | some s =>
      have hslots : slotsOf (segment :: others) = s :: slotsOf others :=
        List.filterMap_cons_some hslot
      rw [hslot, Option.toList_some, List.singleton_append] at hfresh hall
      rw [hslots]
      refine ⟨.cons hreads hrest, ?_, ?_, fun t => ?_⟩
      · exact List.nodup_cons.mpr ⟨fun hs => hfresh s hs List.mem_cons_self, hnodup⟩
      · intro t ht
        obtain rfl | ht := List.mem_cons.mp ht
        · exact hnew _ hslot
        · exact fun hseen => hfresh t ht (List.mem_cons_of_mem _ hseen)
      · obtain hseen | ht := hall t
        · obtain rfl | hseen := List.mem_cons.mp hseen
          · exact .inr List.mem_cons_self
          · exact .inl hseen
        · exact .inr (List.mem_cons_of_mem _ ht)

/-- A skeleton has a segment for each line of its text, and each place in one of them. -/
theorem parse_ok (h : parse source = .ok skeleton) :
    List.Forall₂ Reads (Text.lines source) skeleton.segments ∧
      (slotsOf skeleton.segments).Nodup ∧ ∀ s, s ∈ slotsOf skeleton.segments := by
  obtain ⟨segments, hsegments, h⟩ := bind_eq_ok_iff.mp h
  cases h
  obtain ⟨hreads, hnodup, -, hall⟩ := parseLines_ok hsegments
  exact ⟨hreads, hnodup, fun s => (hall s).resolve_left List.not_mem_nil⟩

theorem slot?_eq_some_iff {s : Slot} :
    segment.slot? = some s ↔ ∃ indent, segment = .slot s indent := by
  cases segment <;> simp [Segment.slot?]

/-- Each place of a skeleton is in one segment, with an indentation on one line. -/
theorem exists_slot (h : parse source = .ok skeleton) (s : Slot) :
    ∃ above indent below, skeleton.segments = above ++ .slot s indent :: below ∧
      '\n' ∉ indent.toList ∧ s ∉ slotsOf (above ++ below) := by
  obtain ⟨hreads, hnodup, hall⟩ := parse_ok h
  obtain ⟨segment, hmem, hslot⟩ := List.mem_filterMap.mp (hall s)
  obtain ⟨indent, rfl⟩ := slot?_eq_some_iff.mp hslot
  obtain ⟨above, below, hsplit⟩ := List.append_of_mem hmem
  refine ⟨above, indent, below, hsplit, ?_, ?_⟩
  · obtain ⟨line, hline, hread⟩ := exists_mem_of_forall₂ hreads hmem
    cases hread
    intro hfeed
    rw [indentOf, String.toList_ofList] at hfeed
    exact Text.notMem_of_mem_lines hline ((List.takeWhile_sublist _).subset hfeed)
  · rw [hsplit, slotsOf, List.filterMap_append, List.filterMap_cons_some hslot] at hnodup
    rw [slotsOf, List.filterMap_append]
    exact (List.nodup_middle.mp hnodup).notMem

/-! ## Filling -/

/-- The lines that a segment takes in the text once its place is filled. -/
def Segment.lines (sections : Sections) (segment : Segment) : List String :=
  (segment.fill sections).flatMap Text.lines

/-- The text that is made has the lines of the segments, one after the other. -/
theorem render_eq_unlines (skeleton : Skeleton) (sections : Sections) :
    skeleton.render sections = Text.unlines (skeleton.segments.flatMap (Segment.lines sections)) := by
  rw [render, ← Text.unlines_flatMap_lines, List.flatMap_assoc]
  rfl

/-- With the indentation of its place an entry has the line feeds that it has without. -/
theorem feeds_indented {indent : String} (hindent : '\n' ∉ indent.toList) (entry : String) :
    Text.feeds (indented indent entry) = Text.feeds entry := by
  rw [indented]
  split
  · next hempty =>
    rw [String.isEmpty_iff.mp hempty]
  · rw [Text.feeds, String.toList_append, List.count_append, List.count_eq_zero.mpr hindent,
      Nat.zero_add, Text.feeds]

theorem length_lines_slot {indent : String} (hindent : '\n' ∉ indent.toList) (sections : Sections)
    (s : Slot) : ((Segment.slot s indent).lines sections).length =
      (sections.of s).length + ((sections.of s).map Text.feeds).sum := by
  rw [Segment.lines, Segment.fill, List.length_flatMap, List.map_map]
  have hone : (fun entry => (Text.lines (indented indent entry)).length) =
      fun entry => Text.feeds entry + 1 := by
    funext entry
    rw [Text.length_lines, feeds_indented hindent]
  show ((sections.of s).map fun entry => (Text.lines (indented indent entry)).length).sum = _
  rw [hone, sum_map_add_one, Nat.add_comm]

/-- In the text that is made of a skeleton, whichever it is, a place takes so many lines. -/
def Takes (sections : Sections) (s : Slot) (count : Nat) : Prop :=
  ∀ source skeleton, parse source = .ok skeleton → ∃ above lines below,
    skeleton.render sections = Text.unlines (above.flatMap (Segment.lines sections) ++ lines ++
      below.flatMap (Segment.lines sections)) ∧
    lines.length = count ∧
    ∃ indent, lines = (Segment.slot s indent).lines sections ∧
      skeleton.segments = above ++ .slot s indent :: below ∧ s ∉ slotsOf (above ++ below)

/-- A place takes a line for each entry, and one more for each line feed in the entries. -/
theorem takes (sections : Sections) (s : Slot) :
    Takes sections s ((sections.of s).length + ((sections.of s).map Text.feeds).sum) := by
  intro source skeleton hparse
  obtain ⟨above, indent, below, hsplit, hindent, honce⟩ := exists_slot hparse s
  refine ⟨above, _, below, ?_, length_lines_slot hindent sections s, indent, rfl, hsplit, honce⟩
  rw [render_eq_unlines, hsplit, List.flatMap_append, List.flatMap_cons, List.append_assoc]

end Skeleton

end Pipewright
