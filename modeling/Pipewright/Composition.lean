import Pipewright.Skeleton
import Pipewright.Step.Binding

/-!
# The composed workflow

The workflow is put together step by step, in execution order.  Each step adds an import of its
module, a group of parameters, and to the body the declarations of its inputs and the call of its
process.

* `ComposedStep`: what the composition needs of a step.
* `Composition`, `Composition.add`: the groups of lines collected so far.
* `Composition.sections`: the lines for the places of the skeleton.
-/

namespace Pipewright

/-- A step as far as the composition needs it. -/
structure ComposedStep where
  name : StepName
  filename : String
  runtime : String
  cpu : Option Nat
  inputs : List String
  outputs : List String
  bindings : List Binding
deriving DecidableEq, Repr

namespace ComposedStep

/-- The line that imports the module of the step. -/
def importLine (s : ComposedStep) : String :=
  "include  \x7b " ++ s.name.label ++ " \x7d from \"./modules/" ++ s.name.text ++ "\""

/-- The line that gives a parameter its value. -/
def paramLine (s : ComposedStep) (slot value : String) : String :=
  "params." ++ s.name.text ++ "_" ++ slot ++ "=\"" ++ value ++ "\""

/-- The lines of the parameters of numbered files. -/
def fileLines (s : ComposedStep) (slot : String) (files : List String) : List String :=
  (files.zipIdx 1).map fun (file, i) => s.paramLine (slot ++ Text.decimal i) file

/-- The lines of the parameters of the step. -/
def paramLines (s : ComposedStep) : List String :=
  [s.paramLine "filename" s.filename,
    s.paramLine "runtime " s.runtime,
    s.paramLine "cpu" ((s.cpu.map Text.decimal).getD "")] ++
  s.fileLines "input" s.inputs ++ s.fileLines "output" s.outputs

/-- The lines that declare the inputs of the step. -/
def channelLines (s : ComposedStep) : List String :=
  s.bindings.map fun b => b.statement s.name

/-- The line that calls the process of the step. -/
def callLine (s : ComposedStep) : String :=
  s.name.label ++ "(" ++ String.intercalate ", " (s.bindings.map fun b => b.channel s.name) ++ ")"

/-- The blocks that the step adds to the body of the workflow. -/
def workflowBlocks (s : ComposedStep) : List String :=
  (if s.bindings.isEmpty then [] else [Text.unlines s.channelLines]) ++ [s.callLine]

end ComposedStep

/-- The lines collected so far: the parameters, the imports, and the blocks of the body. -/
structure Composition where
  params : List String := []
  imports : List String := []
  blocks : List String := []
deriving DecidableEq, Repr, Inhabited

namespace Composition

/-- Adds a step.  An empty line stands between the parameters of two steps. -/
def add (c : Composition) (s : ComposedStep) : Composition where
  params := c.params ++ (if c.params.isEmpty then [] else [""]) ++ s.paramLines
  imports := c.imports ++ [s.importLine]
  blocks := c.blocks ++ s.workflowBlocks

/-- The composition of steps. -/
def ofSteps (steps : List ComposedStep) : Composition :=
  steps.foldl add {}

/-- The number of steps. -/
def stepCount (c : Composition) : Nat := c.imports.length

/-- The lines for the places of the skeleton.  An empty line stands between two blocks of the
body. -/
def sections (c : Composition) : Sections where
  params := c.params
  imports := c.imports
  workflow :=
    let text := String.intercalate "\n\n" c.blocks
    if text.isEmpty then [] else Text.lines text

end Composition

end Pipewright
