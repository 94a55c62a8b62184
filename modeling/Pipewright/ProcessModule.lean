import Pipewright.Document.Basic
import Pipewright.Shell.Word
import Pipewright.Text.Pieces

/-!
# Processes

Each step becomes a process in a module of its own.  A process has a label, an environment, limits
on memory and processors, numbered inputs, named outputs, and a script that sets variables and
runs one command.  A block that would be empty is left out.

* `ProcessCommand`, `ProcessCommand.render`: the command of a process.
* `ProcessModule`, `ProcessModule.render`: the text of the module of a process.
-/

namespace Pipewright

/-- The command that a process runs. -/
inductive ProcessCommand where
  | python (filename : String)
  | r (filename : String)
  /-- A notebook is executed on a kernel, with parameters, into another notebook. -/
  | notebook (kernel workingDirectory : String) (parameters : List Setting)
      (filename outputNotebook : String)
deriving DecidableEq, Repr

namespace ProcessCommand

/-- The words of a parameter of a notebook. -/
def parameterText (p : Setting) : String :=
  "-p " ++ p.key ++ " " ++ Shell.quote p.value

/-- The text of a command. -/
def render : ProcessCommand → String
  | python filename => "python " ++ filename
  | r filename => "Rscript " ++ filename
  | notebook kernel workingDirectory parameters filename outputNotebook =>
    String.intercalate " " (
      ["papermill",
        "--cwd " ++ workingDirectory,
        "--log-output --log-level DEBUG",
        "--request-save-on-cell-execute",
        "--autosave-cell-every 10",
        "--progress-bar",
        "-k " ++ kernel] ++
      parameters.map parameterText ++
      [filename, outputNotebook])

end ProcessCommand

/-- A process, with everything decided that its text depends on. -/
structure ProcessModule where
  label : String
  /-- The environment; empty when there is none. -/
  runtime : String
  cpu : Option Nat
  /-- In gigabytes. -/
  memory : Option Nat
  settings : List Setting
  inputCount : Nat
  outputs : List String
  command : ProcessCommand
deriving DecidableEq, Repr

namespace ProcessModule

/-- A limit counts when it is not zero. -/
def positive (limit : Option Nat) : Option Nat :=
  limit.filter fun n => 0 < n

/-- A block of lines after an empty line, or nothing. -/
def block (lines : List String) : List String :=
  if lines.isEmpty then [] else "" :: lines

/-- The line that names the environment. -/
def runtimeLines (p : ProcessModule) : List String :=
  if p.runtime.isEmpty then [] else ["conda \"" ++ p.runtime ++ "\""]

/-- The lines that limit memory and processors. -/
def limitLines (p : ProcessModule) : List String :=
  ((positive p.memory).map fun n => "memory '" ++ Text.decimal n ++ "GB'").toList ++
    ((positive p.cpu).map fun n => "cpus " ++ Text.decimal n).toList

/-- The lines that declare the inputs, numbered from one. -/
def inputLines (p : ProcessModule) : List String :=
  if p.inputCount = 0 then []
  else "input:" :: (List.range' 1 p.inputCount).map fun i => "path input" ++ Text.decimal i

/-- The declaration of an output, counted from one. -/
def outputLine (output : String) (i : Nat) : String :=
  "path \"" ++ output ++ "\", emit: output" ++ Text.decimal i

/-- The lines that declare the outputs. -/
def outputLines (p : ProcessModule) : List String :=
  if p.outputs.isEmpty then []
  else "output:" :: (p.outputs.zipIdx 1).map fun (output, i) => outputLine output i

/-- The line that sets a variable. -/
def settingLine (s : Setting) : String :=
  s.key ++ "=" ++ Shell.quote s.value

/-- The lines of the script. -/
def scriptLines (p : ProcessModule) : List String :=
  ["script:", "\"\"\""] ++ p.settings.map settingLine ++ [p.command.render, "\"\"\""]

/-- The lines between the braces. -/
def bodyLines (p : ProcessModule) : List String :=
  ["tag \x7b \"running\" \x7d", "label \"unspecific_label\""] ++
    block p.runtimeLines ++ block p.limitLines ++ block p.inputLines ++ block p.outputLines ++
    block p.scriptLines

/-- A line within the braces.  An empty line stays empty. -/
def indented (line : String) : String :=
  if line.isEmpty then "" else "    " ++ line

/-- The text of a process. -/
def render (p : ProcessModule) : String :=
  Text.unlines (["process " ++ p.label ++ " \x7b"] ++ p.bodyLines.map indented ++ ["\x7d", ""])

end ProcessModule

end Pipewright
