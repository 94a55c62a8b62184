import Pipewright.CommandLine.Invocation
import Pipewright.Run.Lifecycle
import Pipewright.Run.Registry

/-!
# The program

Each command works on the console and ends with an exit code, or fails.  Arguments that name no
command end the program at once.

* `Invocation.perform`: what each command does.
* `Outcome`, `runProgram`: the program as a whole, from its arguments to its output.
-/

namespace Pipewright

/-! ## Looking at documents -/

/-- How a severity is shown. -/
def Severity.shown : Severity → String
  | .error => "ERROR"
  | .warning => "WARN"
  | .info => "INFO"

/-- The lines that show a report. -/
def Diagnostic.lines (d : Diagnostic) : List String :=
  let about := match d.node with
    | some id => " (" ++ id ++ ")"
    | none => ""
  ["[" ++ d.severity.shown ++ "] " ++ d.rule.toText ++ about ++ ": " ++ d.message] ++
    (d.fix.map fun fix => "    fix: " ++ fix).toList

/-- The lines that show what the rules report. -/
def reportLines : List Diagnostic → List String
  | [] => ["Pipeline is valid"]
  | ds => ds.flatMap Diagnostic.lines

/-- How the source of an input is shown. -/
def Source.shown : Source → String
  | .wired p => p.text
  | .raw => "filesystem"

/-- The lines that show a step of a plan, counted from one. -/
def PlannedStep.lines (s : PlannedStep) (i : Nat) : List String :=
  ("  " ++ Text.decimal i ++ ". " ++ s.name.text ++ " [" ++ s.node ++ "] op=" ++ s.operator) ::
    s.bindings.map fun b =>
      "       input" ++ Text.decimal b.position ++ " " ++ b.filename ++ " <- " ++ b.source.shown

/-- The lines that show a plan. -/
def planLines (document : Path) (g : Graph) (steps : List PlannedStep) : List String :=
  ["Pipeline: " ++ document,
    "Nodes: " ++ Text.decimal g.nodes.length,
    "Steps: " ++ Text.decimal steps.length,
    "",
    "Execution order:"] ++
  (steps.zipIdx 1).flatMap fun (s, i) => s.lines i

namespace Invocation

/-- The settings under which documents are only looked at. -/
def lookingSettings : GenerationSettings := {}

/-- Prints lines. -/
def printLines (ls : List String) : Act Console Unit :=
  Console.print (String.join (ls.map fun l => l ++ "\n"))

/-- Reports what is wrong with a document.  The code is one when some of it is an error. -/
def performValidate (document : Path) : Act Console Nat := do
  let g ← Console.ask (lookingSettings.loadGraph document)
  printLines (reportLines g.diagnostics)
  return if (Graph.errorMessages g.diagnostics).isEmpty then 0 else 1

/-- Shows the plan of a document. -/
def performInfo (document : Path) : Act Console Nat := do
  let g ← Console.ask (lookingSettings.loadGraph document)
  let steps ← Act.settle (g.plan lookingSettings.policy)
  printLines (planLines document g steps)
  return 0

/-! ## Converting documents -/

/-- The home directory: the one that is given, or the user's, or else the working directory. -/
def homeOf (f : Facilities) (o : ConvertOptions) : Path :=
  (o.home.orElse fun _ => f.home).getD "."

/-- The conversion of a document under options. -/
def conversion (f : Facilities) (input output : Path) (o : ConvertOptions) : Conversion where
  input := input
  template := match o.templateDirectory with
    | some directory => .directory directory
    | none => .bundled
  generation := {
    output := output
    home := homeOf f o
    mapping := o.mapping
    policy := if o.strict then .strict else .firstMatch }

/-- The error about a directory that is there already. -/
def existingError (output : Path) : Error :=
  .stated ("output directory " ++ output ++ " already exists (use --force to overwrite)")

/-- Fails when the directory is there and must not be written over. -/
def refuseExisting (output : Path) (force : Bool) : Act Console Unit := do
  if (← get).host.disk.exists output && !force then throw (existingError output)

/-- Converts a document.  The state of the run is kept when the project is launched. -/
def performConvert (f : Facilities) (input output : Path) (o : ConvertOptions) :
    Act Console Unit := do
  refuseExisting output o.force
  let c := conversion f input output o
  if o.launch then
    let m := RunMetadata.start f.freshId (← Console.now f)
    Console.save m output
    c.prepareAndLaunch f true m none
  else c.perform f

/-- The lines that show a run. -/
def runLines (r : RunRequest) (document output : Path) : List String :=
  ["Run: " ++ r.id] ++ (r.name.map fun name => "Name: " ++ name).toList ++
    ["Pipeline: " ++ document, "Output: " ++ output]

/-- Converts the document that a run request names. -/
def performRun (f : Facilities) (request log : Path) (o : ConvertOptions) : Act Console Unit := do
  let r ← Console.ask (RunRequest.load request)
  let home := homeOf f o
  let output := r.outputDirectory home
  let document := r.pipelineFile home
  refuseExisting output o.force
  let _ ← Console.onHost (register home r)
  printLines (runLines r document output)
  let m := RunMetadata.start r.id (← Console.now f)
  Console.save m output
  (conversion f document output o).prepareAndLaunch f o.launch m (some (output.join log))

/-- Does what a command asks for.  The result is the exit code. -/
def perform (f : Facilities) : Invocation → Act Console Nat
  | convert input output o => do
    performConvert f input output o
    return 0
  | run request log o => do
    performRun f request log o
    return 0
  | validate document => performValidate document
  | info document => performInfo document

end Invocation

/-! ## The program -/

/-- What the program has done: its exit code, what it has printed, and the disk. -/
structure Outcome where
  exitCode : Nat
  stdout : String
  stderr : String
  disk : Disk

/-- The code of an invocation that is not understood. -/
def usageCode : Nat := 2

/-- The code of the program when no command is carried out.  A text that has been asked for is
shown. -/
def CommandLine.Refusal.exitCode : CommandLine.Refusal → Nat
  | textWanted => 0
  | misused => usageCode

/-- A text with every line set in. -/
def setIn (text : String) : String :=
  Text.unlines ((Text.lines text).map fun l => "    " ++ l)

/-- How an error is shown. -/
def Error.shown (e : Error) : String :=
  "Error: " ++ e.message ++
    (match e.cause? with
      | some cause => "\n\nCaused by:\n" ++ setIn cause
      | none => "") ++ "\n"

/-- What the program has done when its invocation has ended. -/
def Outcome.ofEnd : Except Error Nat × Console → Outcome
  | (.ok code, c) => ⟨code, c.stdout, c.stderr, c.host.disk⟩
  | (.error e, c) => ⟨1, c.stdout, c.stderr ++ e.shown, c.host.disk⟩

/-- Runs the program with arguments on a disk.  The texts about the program itself, and what is said
of arguments that are not understood, are left out of what it prints. -/
def runProgram (f : Facilities) (arguments : List String) (d : Disk) : Outcome :=
  match Invocation.parse arguments with
  | .error refusal => ⟨refusal.exitCode, "", "", d⟩
  | .ok invocation => .ofEnd (invocation.perform f (.before d))

end Pipewright
