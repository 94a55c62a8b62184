import Pipewright.Action
import Pipewright.Disk.Tree

/-!
# Outside commands

Environments and kernels are provided by commands that the program does not know from the inside.
Whatever runs commands may look at the disk and at the commands before, may change the disk, and
answers with an output or fails to start the command at all.

* `Command`, `CommandOutput`, `CommandRunner`: commands and what runs them.
* `Host`: a disk, with the commands that have been run beside it.
* `Host.run`, `Host.runChecked`: running a command.
* `CommandRunner.replaying`: a runner that gives answers from a list.
-/

namespace Pipewright

/-- A command: a program with its arguments. -/
structure Command where
  program : String
  arguments : List String
deriving DecidableEq, Repr, Inhabited

/-- A command as messages show it. -/
def Command.text (c : Command) : String :=
  String.intercalate " " (c.program :: c.arguments)

/-- What a command has written, and the code that it has left. -/
structure CommandOutput where
  stdout : String := ""
  stderr : String := ""
  exitCode : Int := 0
deriving DecidableEq, Repr

instance : Inhabited CommandOutput := ⟨{}⟩

/-- A command succeeds when it leaves the code zero. -/
def CommandOutput.success (o : CommandOutput) : Bool :=
  o.exitCode = 0

/-- Whatever runs commands.  The answer may depend on the commands before and on the disk. -/
structure CommandRunner where
  run : List Command → Disk → Command → Except Error CommandOutput × Disk

/-- The disk that is worked on, with the commands that have been run, the first one first. -/
structure Host where
  disk : Disk
  commands : List Command := []
deriving Inhabited

namespace Host

variable {α : Type}

/-- An action on the disk. -/
def files (action : DiskAct α) : Act Host α := fun h =>
  let (result, d) := action h.disk
  (result.mapError Error.disk, { h with disk := d })

/-- Asks something of the disk. -/
def ask (question : Disk → Except DiskFault α) : Act Host α :=
  files (DiskAct.ask question)

/-- Makes one change of the disk. -/
def change (f : Disk → Except DiskFault Disk) : Act Host Unit :=
  files (DiskAct.change f)

/-- Runs a command. -/
def run (runner : CommandRunner) (c : Command) : Act Host CommandOutput := fun h =>
  let (result, d) := runner.run h.commands h.disk c
  (result, { disk := d, commands := h.commands ++ [c] })

/-- What is said of a command that has failed. -/
def failureText (o : CommandOutput) : String :=
  let code := "exit code " ++ Text.signedDecimal o.exitCode
  let stderr := Text.trim o.stderr
  if stderr.isEmpty then code else code ++ ": " ++ stderr

/-- Runs a command that has to succeed. -/
def runChecked (runner : CommandRunner) (c : Command) : Act Host CommandOutput := do
  let o ← run runner c
  if o.success then return o
  else throw (.provisioning c.text (failureText o))

end Host

/-! ## Answers from a list -/

/-- An answer to a command. -/
inductive Reply where
  | output (o : CommandOutput)
  /-- The command cannot be started. -/
  | notStarted (message : String)
deriving DecidableEq, Repr

/-- What an answer means for the command that gets it. -/
def Reply.result (c : Command) : Reply → Except Error CommandOutput
  | output o => .ok o
  | notStarted message => .error (.provisioning c.text message)

/-- Answers the commands one by one from a list.  Commands after the last answer succeed and write
nothing. -/
def CommandRunner.replaying (replies : List Reply) : CommandRunner where
  run before d c :=
    match replies[before.length]? with
    | some reply => (reply.result c, d)
    | none => (.ok {}, d)

end Pipewright
