import Pipewright.Console

/-!
# The life of a run

A run is prepared by converting its document, and may then be launched by starting the workflow
engine on the project.  The state of the run is saved at each change, failures included.

* `Conversion`, `Conversion.perform`: converting a document.
* `launch`: starting the workflow engine.
* `Conversion.prepareAndLaunch`: a run from its first saved state on.
-/

namespace Pipewright

/-- The conversion of a document to a project. -/
structure Conversion where
  input : Path
  template : Template
  generation : GenerationSettings
deriving DecidableEq, Repr

/-- What is printed when a project has been generated. -/
def GenerationReport.summary (r : GenerationReport) : String :=
  "Generated " ++ r.main ++ " (" ++ Text.decimal r.modules.length ++ " modules, " ++
    Text.decimal r.diagnostics.length ++ " diagnostics)"

namespace Conversion

/-- The directory of the project. -/
def output (c : Conversion) : Path := c.generation.output

/-- Converts the document, over what the directory of the project holds. -/
def perform (f : Facilities) (c : Conversion) : Act Console Unit := do
  Console.onHost (scaffold c.output c.template true)
  let report ← Console.onJournal (c.generation.generate f.provisioners c.input)
  Console.printLine report.summary

end Conversion

/-! ## Launching -/

/-- The command that starts the workflow engine on a project. -/
def engineCommand : Command :=
  ⟨"nextflow", ["run", mainFile, "-with-dag", "-profile", "conda"]⟩

/-- An action on the disk whose failure is told as it is. -/
def changePlainly (change : Disk → Except DiskFault Disk) : Act Console Unit := fun c =>
  match change c.host.disk with
  | .ok d => (.ok (), { c with host := { c.host with disk := d } })
  | .error fault => (.error (.stated fault.message), c)

/-- Runs the workflow engine in the directory of a project. -/
def executeEngine (f : Facilities) (output : Path) (log : Option Path) : Act Console Execution :=
  fun c =>
    match f.execute output log engineCommand c.host.disk with
    | .ok (e, d) => (.ok e, { c with host := { c.host with disk := d } })
    | .error fault => (.error (.stated fault.message), c)

/-- Starts the workflow engine on a project and waits for its end.  What it writes goes behind what
the log holds, if there is a log, and is printed otherwise. -/
def launch (f : Facilities) (output : Path) (log : Option Path) : Act Console ExitStatus := do
  match log with
  | none => pure ()
  | some p =>
    changePlainly fun d => d.append p .empty
    Console.printLine ("Log: " ++ p)
  let e ← executeEngine f output log
  Console.printOutput e
  return e.status

/-! ## Runs -/

/-- What is said when the workflow engine has not ended well. -/
def engineFailureText (status : ExitStatus) : String :=
  "nextflow exited with " ++ status.text

/-- Saves the run in another state. -/
def saveTransition (f : Facilities) (output : Path) (m : RunMetadata) (status : RunStatus) :
    Act Console RunMetadata := do
  let changed := m.transition status (← Console.now f)
  Console.save changed output
  return changed

/-- Saves the run as failed, and fails. -/
def saveFailure (f : Facilities) (output : Path) (m : RunMetadata) (status : RunStatus)
    (e : Error) : Act Console Unit := do
  Console.save (m.fail status e.message (← Console.now f)) output
  throw e

/-- Launches a run that has been prepared. -/
def launchRun (f : Facilities) (output : Path) (m : RunMetadata) (log : Option Path) :
    Act Console Unit := do
  let running ← saveTransition f output m .running
  match ← Act.attempt (launch f output log) with
  | .error e => saveFailure f output running .runError e
  | .ok status =>
    if status.success then
      let _ ← saveTransition f output running .runSuccess
      Console.print "\nWorkflow completed\n"
    else saveFailure f output running .runError (.stated (engineFailureText status))

/-- Takes a run from its first saved state to its end: converts the document, and launches the
project if that is wanted. -/
def Conversion.prepareAndLaunch (f : Facilities) (c : Conversion) (wanted : Bool) (m : RunMetadata)
    (log : Option Path) : Act Console Unit := do
  match ← Act.attempt (c.perform f) with
  | .error e => saveFailure f c.output m .prepareFailure e
  | .ok () =>
    let prepared ← saveTransition f c.output m .prepareSuccess
    if wanted then launchRun f c.output prepared log

end Pipewright
