import Pipewright.CommandLine.Options
import Pipewright.Kernel.Family
import Pipewright.Project.Generate

/-!
# Invocations

The arguments of the program name one of four commands and its options.  Arguments that are not
understood are refused as a whole.  So are those that ask for the help text, of the program or of one
of its commands, or for the version: instead of a command being carried out a text is shown.

* `ConvertOptions`, `Invocation`: the commands with their options.
* `Invocation.parse`, `Invocation.parse?`: the command that arguments name.
-/

namespace Pipewright

open CommandLine

/-- The options of the commands that convert a document. -/
structure ConvertOptions where
  /-- A directory that is there is written over. -/
  force : Bool := false
  /-- The project is launched. -/
  launch : Bool := false
  home : Option Path := none
  templateDirectory : Option Path := none
  mapping : KernelMapping := .inverted
  strict : Bool := false
deriving DecidableEq, Repr

/-- A command of the user. -/
inductive Invocation where
  /-- Converts a document. -/
  | convert (input output : Path) (options : ConvertOptions)
  /-- Converts the document that a run request names. -/
  | run (request log : Path) (options : ConvertOptions)
  /-- Reports what is wrong with a document. -/
  | validate (document : Path)
  /-- Shows the plan of a document. -/
  | info (document : Path)
deriving DecidableEq, Repr

namespace Invocation

/-! ## What the commands know -/

/-- A path is not empty. -/
def isPath (value : String) : Bool :=
  !value.isEmpty

/-- An option that takes a path. -/
def pathOption (name : String) (letter : Option Char) : OptionKind :=
  ⟨name, letter, .value isPath⟩

/-- The options that all commands know. -/
def commonOptions : List OptionKind := [⟨"verbose", some 'v', .flag⟩, ⟨"help", some 'h', .text⟩]

/-- The options of the commands that convert a document. -/
def convertOptions : List OptionKind := [
  ⟨"force", some 'f', .flag⟩,
  ⟨"run", some 'r', .flag⟩,
  pathOption "home-dir" none,
  pathOption "template-dir" none,
  ⟨"kernel-mapping", none, .value fun word => (KernelMapping.ofText word).isOk⟩,
  ⟨"strict-bindings", none, .flag⟩]

/-- What stands in front of the name of a command. -/
def programForm : CommandForm where
  options := commonOptions ++ [⟨"version", some 'V', .text⟩]

def convertForm : CommandForm where
  options := commonOptions ++ [pathOption "input" (some 'i'), pathOption "output" (some 'o')] ++
    convertOptions

def runForm : CommandForm where
  options := commonOptions ++ [pathOption "run-config" none, pathOption "append-log" none] ++
    convertOptions

/-- A command that looks at a document knows nothing else. -/
def documentForm : CommandForm where
  options := commonOptions
  others := [isPath]

/-! ## Reading invocations -/

/-- The value of an option that has to be given. -/
def required (given : List Given) (name : String) : Except Refusal String :=
  match valueOf? given name with
  | some value => .ok value
  | none => .error .misused

/-- The mapping that is named, or the usual one. -/
def mappingOf (given : List Given) : KernelMapping :=
  ((valueOf? given "kernel-mapping").bind fun word => (KernelMapping.ofText word).toOption).getD
    .inverted

/-- The options of a conversion. -/
def optionsOf (given : List Given) : ConvertOptions where
  force := isGiven given "force"
  launch := isGiven given "run"
  home := valueOf? given "home-dir"
  templateDirectory := valueOf? given "template-dir"
  mapping := mappingOf given
  strict := isGiven given "strict-bindings"

/-- The arguments of a conversion. -/
def parseConvert (arguments : List String) : Except Refusal Invocation := do
  let (given, _) ← convertForm.read arguments
  return .convert (← required given "input") (← required given "output") (optionsOf given)

/-- The log of a run, below the output directory. -/
def defaultLog : Path := "run.log"

/-- The arguments of a run. -/
def parseRun (arguments : List String) : Except Refusal Invocation := do
  let (given, _) ← runForm.read arguments
  let log := (valueOf? given "append-log").getD defaultLog
  return .run (← required given "run-config") log (optionsOf given)

/-- The only argument of a command that looks at a document. -/
def parseDocument (arguments : List String) : Except Refusal Path := do
  match ← documentForm.read arguments with
  | (_, document :: _) => return document
  | (_, []) => throw .misused

/-- The commands of the program.  One of them shows the help text of another. -/
def commandNames : List String := ["convert", "run", "validate", "info", "help"]

/-- Why the help text of a command is shown, or is not. -/
def helpRefusal : List String → Refusal
  | [] => .textWanted
  | [name] => if commandNames.contains name then .textWanted else .misused
  | _ :: _ :: _ => .misused

/-- A command by its name. -/
def parseCommand (name : String) (arguments : List String) : Except Refusal Invocation :=
  match name with
  | "convert" => parseConvert arguments
  | "run" => parseRun arguments
  | "validate" => (parseDocument arguments).map validate
  | "info" => (parseDocument arguments).map info
  | "help" => .error (helpRefusal arguments)
  | _ => .error .misused

/-- The command that arguments name.  Options in front of its name are those of the program. -/
def parse (arguments : List String) : Except Refusal Invocation := do
  let (front, rest) := arguments.span isOption
  let _ ← programForm.read front
  -- What follows two hyphens is no command.
  if front.contains "--" then throw .misused
  match rest with
  | name :: arguments => parseCommand name arguments
  | [] => throw .misused

/-- The command that arguments name, if there is one. -/
def parse? (arguments : List String) : Option Invocation :=
  (parse arguments).toOption

end Invocation

end Pipewright
