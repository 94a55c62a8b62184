import Pipewright.Text.Blank
import Pipewright.Text.Pieces

/-!
# The workflow skeleton

A skeleton is the text of a workflow with three places to fill: parameters, imports and the
workflow's body.  A place is a line that holds its marker and nothing else, and there is exactly
one of each.  Filling puts lines in the place of the marker, each with the indentation of the
marker; what is put in is never looked at again.

* `Slot`, `Slot.marker`: the three places.
* `Sections`: the lines for each of them.
* `Skeleton.parse`, `Skeleton.render`: from text and to text.
-/

namespace Pipewright

/-- A place of a skeleton. -/
inductive Slot where
  | params
  | imports
  | workflow
deriving DecidableEq, Repr

namespace Slot

/-- The places in the order in which a missing one is reported. -/
def all : List Slot := [params, imports, workflow]

/-- The text that marks a place. -/
def marker : Slot → String
  | params => "/*>>>>>[PARAMS DEFINE SECTION]*/"
  | imports => "/*>>>>>[IMPORT MODULES SECTION]*/"
  | workflow => "/*>>>>>[COMPOSE WORFLOW ]*/"

/-- The first place whose marker stands in a line. -/
def inLine? (line : String) : Option Slot :=
  all.find? fun s => Text.occursIn s.marker line

end Slot

/-- The lines for each place of a skeleton. -/
structure Sections where
  params : List String := []
  imports : List String := []
  workflow : List String := []
deriving DecidableEq, Repr, Inhabited

/-- The lines for a place. -/
def Sections.of (sections : Sections) : Slot → List String
  | .params => sections.params
  | .imports => sections.imports
  | .workflow => sections.workflow

/-- Why a text is no skeleton.  Lines are counted from one. -/
inductive SkeletonFault where
  /-- A line holds more than the marker in it. -/
  | sharedLine (line : Nat) (slot : Slot)
  /-- A marker stands on a second line. -/
  | repeated (line : Nat) (slot : Slot)
  /-- A marker stands nowhere. -/
  | missing (slot : Slot)
deriving DecidableEq, Repr

/-- The wording of a fault of a skeleton. -/
def SkeletonFault.message : SkeletonFault → String
  | sharedLine line slot =>
    "line " ++ Text.decimal line ++ ": marker " ++ slot.marker ++ " must be alone on its line"
  | repeated line slot =>
    "line " ++ Text.decimal line ++ ": marker " ++ slot.marker ++ " appears more than once"
  | missing slot => "missing marker " ++ slot.marker

namespace Skeleton

/-- A line of a skeleton: a text to keep, or a place with its indentation. -/
inductive Segment where
  | text (line : String)
  | slot (slot : Slot) (indent : String)
deriving DecidableEq, Repr

end Skeleton

/-- A skeleton, line by line. -/
structure Skeleton where
  segments : List Skeleton.Segment
deriving DecidableEq, Repr

namespace Skeleton

/-- The white space at the start of a line. -/
def indentOf (line : String) : String :=
  String.ofList (line.toList.takeWhile Text.isSpace)

/-- The segment of a line that stands after other lines.  `number` is the number of the line, and
`seen` holds the places that have been found before. -/
def segmentOf (number : Nat) (seen : List Slot) (line : String) : Except SkeletonFault Segment :=
  match Slot.inLine? line with
  | none => .ok (.text line)
  | some s =>
    if Text.trim line ≠ s.marker then .error (.sharedLine number s)
    else if s ∈ seen then .error (.repeated number s)
    else .ok (.slot s (indentOf line))

/-- The place that a segment holds. -/
def Segment.slot? : Segment → Option Slot
  | .text _ => none
  | .slot s _ => some s

/-- The segments of lines, the first of which has the number `number`. -/
def parseLines (number : Nat) (seen : List Slot) : List String → Except SkeletonFault (List Segment)
  | [] =>
    match Slot.all.find? fun s => s ∉ seen with
    | some s => .error (.missing s)
    | none => .ok []
  | line :: rest => do
    let segment ← segmentOf number seen line
    return segment :: (← parseLines (number + 1) (segment.slot?.toList ++ seen) rest)

/-- The skeleton of a text. -/
def parse (source : String) : Except SkeletonFault Skeleton := do
  return ⟨← parseLines 1 [] (Text.lines source)⟩

/-- A line with the indentation of its place.  An empty line stays empty. -/
def indented (indent line : String) : String :=
  if line.isEmpty then "" else indent ++ line

/-- The lines of a segment once its place is filled. -/
def Segment.fill (sections : Sections) : Segment → List String
  | .text line => [line]
  | .slot s indent => (sections.of s).map (indented indent)

/-- The text of a skeleton whose places are filled. -/
def render (skeleton : Skeleton) (sections : Sections) : String :=
  Text.unlines (skeleton.segments.flatMap (Segment.fill sections))

/-! ## The bundled skeleton -/

/-- The skeleton that is used unless another one is given. -/
def bundled : String := Text.unlines [
  "#!/usr/bin/env nextflow",
  "",
  "nextflow.enable.dsl = 2",
  "",
  Slot.params.marker,
  "",
  Slot.imports.marker,
  "",
  "workflow \x7b",
  "    " ++ Slot.workflow.marker,
  "\x7d",
  ""]

/-- The configuration of the workflow engine that goes with the bundled skeleton. -/
def bundledConfig : String := Text.unlines [
  "profiles \x7b",
  "    standard \x7b",
  "        process.executor = 'local'",
  "    \x7d",
  "",
  "    conda \x7b",
  "        conda.enabled = true",
  "        conda.useMamba = true",
  "        process.executor = 'local'",
  "    \x7d",
  "\x7d",
  "",
  "timeline \x7b",
  "    enabled = true",
  "    overwrite = true",
  "    file = 'reports/timeline.html'",
  "\x7d",
  "",
  "report \x7b",
  "    enabled = true",
  "    overwrite = true",
  "    file = 'reports/report.html'",
  "\x7d",
  ""]

end Skeleton

end Pipewright
