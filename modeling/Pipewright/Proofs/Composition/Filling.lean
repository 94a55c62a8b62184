import Pipewright.Proofs.Composition.Grammar
import Pipewright.Proofs.Composition.Slots

/-!
# Filling skeletons

The text that is made of a skeleton follows the lines of the skeleton's own text.  A line with a
marker makes way for the entries of its place, each behind the white space in front of the marker,
and every other line stays.  What is put in is not looked at, so when every place is filled with its
own marker, the text is the skeleton again.

* `Skeleton.Becomes`: what becomes of a line.
* `Skeleton.exists_blocks`: the text that is made, line by line of the skeleton's text.
* `Sections.markers`, `Skeleton.parse_render_markers`, `Skeleton.render_markers_eq`: places filled
  with their markers.
* `Skeleton.render_fills`: the main statement.
-/

namespace Pipewright

/-- Each place is filled with its own marker. -/
def Sections.markers : Sections where
  params := [Slot.params.marker]
  imports := [Slot.imports.marker]
  workflow := [Slot.workflow.marker]

theorem Sections.of_markers (s : Slot) : markers.of s = [s.marker] := by
  cases s <;> rfl

namespace Skeleton

variable {line source : String} {lines : List String} {segment : Segment} {segments : List Segment}
  {skeleton : Skeleton} {sections : Sections} {s : Slot}

/-! ## Line by line -/

/-- What becomes of a line of a skeleton: a line without markers stays, and a marker with white
space around it makes way for the entries of its place. -/
inductive Becomes (sections : Sections) : String → List String → Prop where
  | kept {line : String} (hnone : ∀ s : Slot, ¬ s.Marks line) : Becomes sections line [line]
  | filled {indent trailing : String} {s : Slot} (hindent : Text.isBlank indent = true)
      (htrailing : Text.isBlank trailing = true) :
      Becomes sections (indent ++ s.marker ++ trailing)
        ((sections.of s).map fun entry => if entry = "" then "" else indent ++ entry)

/-- A line that is a marker with white space around it is told by its indentation. -/
theorem exists_trailing (h : Text.trim line = s.marker) :
    ∃ trailing, line = indentOf line ++ s.marker ++ trailing ∧
      Text.isBlank (indentOf line) = true ∧ Text.isBlank trailing = true := by
  obtain ⟨l, r, hline, hl, hr⟩ := (Text.trim_eq_iff s.bare_marker).mp h
  have hindent : indentOf line = String.ofList l := by
    rw [indentOf, hline, List.append_assoc,
      Text.takeWhile_isSpace_append hl (s.bare_marker.head?_append r)]
  refine ⟨String.ofList r, ?_, ?_, ?_⟩
  · rw [hindent, ← String.toList_inj, hline]
    simp [String.toList_append]
  · rw [hindent, Text.isBlank_iff, String.toList_ofList]
    exact hl
  · rw [Text.isBlank_iff, String.toList_ofList]
    exact hr

/-- An entry with its indentation. -/
theorem indented_eq (indent : String) :
    indented indent = fun entry => if entry = "" then "" else indent ++ entry := by
  funext entry
  rw [indented]
  simp only [String.isEmpty_iff]

/-- Filling a segment is what becomes of its line. -/
theorem Reads.becomes (h : Reads line segment) (sections : Sections) :
    Becomes sections line (segment.fill sections) := by
  cases h with
  | text hnone => exact .kept (Slot.inLine?_eq_none_iff.mp hnone)
  | slot hfound halone =>
    obtain ⟨trailing, hline, hindent, htrailing⟩ := exists_trailing halone
    rw [Segment.fill, indented_eq]
    generalize indentOf line = indent at *
    subst hline
    exact .filled hindent htrailing

/-- The text that is made holds what becomes of the lines of the skeleton's text. -/
theorem exists_blocks (h : parse source = .ok skeleton) (sections : Sections) :
    ∃ blocks, List.Forall₂ (Becomes sections) (Text.lines source) blocks ∧
      skeleton.render sections = Text.unlines blocks.flatten := by
  refine ⟨skeleton.segments.map (Segment.fill sections), ?_, ?_⟩
  · rw [List.forall₂_map_right_iff]
    exact (parse_ok h).1.imp fun line segment hreads => hreads.becomes sections
  · rw [render, List.flatMap_def]

/-! ## Places filled with their markers -/

/-- The line of a segment once its place is filled with its own marker. -/
def Segment.own : Segment → String
  | .text line => line
  | .slot s indent => indent ++ s.marker

theorem Segment.fill_markers (segment : Segment) :
    segment.fill Sections.markers = [segment.own] := by
  cases segment with
  | text line => rfl
  | slot s indent =>
    have hne : s.marker.isEmpty = false := by cases s <;> decide
    rw [fill, Sections.of_markers, List.map_singleton, indented, hne]
    rfl

theorem render_markers (skeleton : Skeleton) :
    skeleton.render Sections.markers = Text.unlines (skeleton.segments.map Segment.own) := by
  have hfill : Segment.fill Sections.markers = fun segment => [segment.own] :=
    funext Segment.fill_markers
  rw [render, hfill, List.map_eq_flatMap]

/-- The line of a segment is the line that it was read from, but for white space behind a marker. -/
theorem Reads.own_eq (h : Reads line segment)
    (hend : ∀ s : Slot, s.Marks line → ∀ c ∈ line.toList.getLast?, Text.isSpace c = false) :
    segment.own = line := by
  cases h with
  | text hnone => rfl
  | @slot s hfound halone =>
    obtain ⟨trailing, hline, -, htrailing⟩ := exists_trailing halone
    rcases List.eq_nil_or_concat trailing.toList with hnil | ⟨front, c, hc⟩
    · rw [String.toList_eq_nil_iff.mp hnil, String.append_empty] at hline
      exact hline.symm
    · -- the last character of the line would be white space
      have hlast : c ∈ line.toList.getLast? := by
        rw [hline, String.toList_append, hc, List.concat_eq_append, ← List.append_assoc,
          List.getLast?_concat]
        exact rfl
      have hspace : Text.isSpace c = true := Text.isBlank_iff.mp htrailing c (by simp [hc])
      rw [hend s ((Slot.marks_iff_of_trim_eq halone).mpr rfl) c hlast] at hspace
      cases hspace

theorem Reads.feed_notMem_own (h : Reads line segment) (hfeed : '\n' ∉ line.toList) :
    '\n' ∉ segment.own.toList := by
  cases h with
  | text hnone => exact hfeed
  | @slot s hfound halone =>
    obtain ⟨trailing, hline, -, -⟩ := exists_trailing halone
    intro hmem
    apply hfeed
    rw [hline, String.toList_append]
    exact List.mem_append_left _ hmem

/-- A segment is read from its line like from the line that it was read from. -/
theorem Reads.segmentOf_own (h : Reads line segment) (number : Nat) (seen : List Slot) :
    segmentOf number seen segment.own = segmentOf number seen line := by
  cases h with
  | text hnone => rfl
  | @slot s hfound halone =>
    obtain ⟨-, -, hindent, -⟩ := exists_trailing halone
    rw [Text.isBlank_iff] at hindent
    have htrim : Text.trim (indentOf line ++ s.marker) = s.marker := by
      refine (Text.trim_eq_iff s.bare_marker).mpr ⟨(indentOf line).toList, [], ?_, hindent, nofun⟩
      rw [String.toList_append, List.append_nil]
    have hsame : indentOf (indentOf line ++ s.marker) = indentOf line := by
      rw [indentOf, String.toList_append, Text.takeWhile_isSpace_append hindent s.bare_marker.1,
        String.ofList_toList]
    have hmarks : (Slot.Marks · (indentOf line ++ s.marker)) = (Slot.Marks · line) := by
      funext t
      rw [Slot.marks_iff_of_trim_eq htrim, Slot.marks_iff_of_trim_eq halone]
    have hfound' : Slot.inLine? (indentOf line ++ s.marker) = some s := by
      rw [Slot.inLine?_eq_some_iff, hmarks]
      exact Slot.inLine?_eq_some_iff.mp hfound
    simp only [Segment.own, segmentOf, hfound', hfound, htrim, halone, hsame]

theorem parseLines_own (h : List.Forall₂ Reads lines segments) (number : Nat) (seen : List Slot) :
    parseLines number seen (segments.map Segment.own) = parseLines number seen lines := by
  induction h generalizing number seen with
  | nil => rfl
  | cons hread _ ih =>
    rw [List.map_cons, parseLines, parseLines, hread.segmentOf_own]
    simp only [ih]

/-- Filled with its own markers, a skeleton is read again. -/
theorem parse_render_markers (h : parse source = .ok skeleton) :
    parse (skeleton.render Sections.markers) = .ok skeleton := by
  have hreads := (parse_ok h).1
  have hlines : Text.lines (skeleton.render Sections.markers) =
      skeleton.segments.map Segment.own := by
    rw [render_markers]
    refine Text.lines_unlines ?_ ?_
    · intro hnil
      rw [List.map_eq_nil_iff] at hnil
      rw [hnil, List.forall₂_nil_right_iff] at hreads
      exact Text.lines_ne_nil source hreads
    · intro own hown
      obtain ⟨segment, hmem, rfl⟩ := List.mem_map.mp hown
      obtain ⟨line, hline, hread⟩ := exists_mem_of_forall₂ hreads hmem
      exact hread.feed_notMem_own (Text.notMem_of_mem_lines hline)
  rw [parse, hlines, parseLines_own hreads]
  exact h

theorem map_own_eq (h : List.Forall₂ Reads lines segments)
    (hend : ∀ line ∈ lines, ∀ s : Slot, s.Marks line →
      ∀ c ∈ line.toList.getLast?, Text.isSpace c = false) : segments.map Segment.own = lines := by
  induction h with
  | nil => rfl
  | cons hread _ ih =>
    rw [List.forall_mem_cons] at hend
    rw [List.map_cons, hread.own_eq hend.1, ih hend.2]

/-- Filled with its own markers, a skeleton is its own text, if no marker has white space behind
it. -/
theorem render_markers_eq (h : parse source = .ok skeleton)
    (hend : ∀ line ∈ Text.lines source, ∀ s : Slot, s.Marks line →
      ∀ c ∈ line.toList.getLast?, Text.isSpace c = false) :
    skeleton.render Sections.markers = source := by
  rw [render_markers, map_own_eq (parse_ok h).1 hend, Text.unlines_lines]

/-- The text that is made of a skeleton has the lines of the skeleton's text, where each marker has
made way for the entries of its place.  With the markers for entries it is read as the skeleton
again, and it is the skeleton's own text if no marker has white space behind it. -/
theorem render_fills (h : parse source = .ok skeleton) :
    (∀ sections, ∃ blocks, List.Forall₂ (Becomes sections) (Text.lines source) blocks ∧
      skeleton.render sections = Text.unlines blocks.flatten) ∧
    parse (skeleton.render Sections.markers) = .ok skeleton ∧
    ((∀ line ∈ Text.lines source, ∀ s : Slot, s.Marks line →
        ∀ c ∈ line.toList.getLast?, Text.isSpace c = false) →
      skeleton.render Sections.markers = source) :=
  ⟨exists_blocks h, parse_render_markers h, render_markers_eq h⟩

/-! ### The bundled skeleton -/

/-- The bundled skeleton, line by line. -/
def bundledSkeleton : Skeleton := ⟨[
  .text "#!/usr/bin/env nextflow", .text "", .text "nextflow.enable.dsl = 2", .text "",
  .slot .params "", .text "", .slot .imports "", .text "",
  .text "workflow \x7b", .slot .workflow "    ", .text "\x7d", .text ""]⟩

theorem parse_bundled : parse bundled = .ok bundledSkeleton :=
  eq_ok_of_toOption (by decide +kernel)

/-- Entries with a marker of another place among them, and with an empty one. -/
def crossedSections : Sections where
  imports := [Slot.workflow.marker]
  workflow := ["A()", "", "B()"]

/-- The bundled skeleton is made again of its markers, and a marker among the entries of another
place is put in as it is. -/
theorem render_fills_bundled :
    parse bundled = .ok bundledSkeleton ∧ bundledSkeleton.render Sections.markers = bundled ∧
    parse (bundledSkeleton.render Sections.markers) = .ok bundledSkeleton ∧
    ∃ blocks, List.Forall₂ (Becomes crossedSections) (Text.lines bundled) blocks ∧
      Text.unlines blocks.flatten = Text.unlines ["#!/usr/bin/env nextflow", "",
        "nextflow.enable.dsl = 2", "", "", Slot.workflow.marker, "", "workflow \x7b", "    A()", "",
        "    B()", "\x7d", ""] := by
  obtain ⟨hfills, hagain, hown⟩ := render_fills parse_bundled
  have hends : (Text.lines bundled).all
      (fun line => line.toList.getLast?.all fun c => !Text.isSpace c) = true := by
    decide +kernel
  have hend : ∀ line ∈ Text.lines bundled, ∀ c ∈ line.toList.getLast?, Text.isSpace c = false := by
    intro line hline c hc
    have hall := List.all_eq_true.mp hends line hline
    rw [Option.mem_def.mp hc, Option.all_some, Bool.not_eq_true'] at hall
    exact hall
  obtain ⟨blocks, hblocks, hrender⟩ := hfills crossedSections
  refine ⟨parse_bundled, hown fun line hline _ _ => hend line hline, hagain, blocks, hblocks, ?_⟩
  rw [← hrender]
  decide +kernel

end Skeleton

end Pipewright
