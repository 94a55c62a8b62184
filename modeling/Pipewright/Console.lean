import Pipewright.Programs
import Pipewright.Project.Generate
import Pipewright.Run.Checkpoint

/-!
# Consoles

A command of the user works on the host, prints, and reads the clock.

* `Facilities`: what a command finds around it.
* `Console`: what a command changes.
* `Console.print`, `Console.save`, `Console.now`: the steps that commands are made of.
-/

namespace Pipewright

/-- What a command of the user finds around it. -/
structure Facilities where
  /-- The home directory, if it is known. -/
  home : Option Path
  provisioners : Provisioners
  /-- Runs programs, the workflow engine among them. -/
  execute : Launcher
  /-- What the clock shows, reading by reading. -/
  clock : Nat → String
  /-- An id that no run has. -/
  freshId : String

/-- The facilities where programs are run in one way, and so are the tools that provide kernels and
environments. -/
def Facilities.ofLauncher (launch : Launcher) (home : Option Path) (clock : Nat → String)
    (freshId : String) : Facilities where
  home := home
  provisioners := ToolNames.provisioners {} (.ofLauncher launch)
  execute := launch
  clock := clock
  freshId := freshId

/-- The host, what has been printed, the states of the run that have been saved, the first one
first, and how often the clock has been read. -/
structure Console where
  host : Host
  stdout : String := ""
  stderr : String := ""
  checkpoints : List RunMetadata := []
  readings : Nat := 0
deriving Inhabited

namespace Console

variable {α : Type}

/-- The console before anything has been done on a disk. -/
def before (d : Disk) : Console where
  host := ⟨d, []⟩

/-- An action on the host. -/
def onHost (action : Act Host α) : Act Console α :=
  Act.within Console.host (fun h c => { c with host := h }) action

/-- An action on the host that asks for kernels and environments. -/
def onJournal (action : Act Journal α) : Act Console α :=
  onHost (Act.within (fun h => ⟨h, []⟩) (fun j _ => j.host) action)

/-- Asks something of the disk. -/
def ask (question : Disk → Except Error α) : Act Console α := fun c =>
  (question c.host.disk, c)

/-- Prints a text. -/
def print (text : String) : Act Console Unit :=
  modify fun c => { c with stdout := c.stdout ++ text }

/-- Prints a line. -/
def printLine (text : String) : Act Console Unit :=
  print (text ++ "\n")

/-- Prints what a program has written. -/
def printOutput (e : Execution) : Act Console Unit :=
  modify fun c => { c with
    stdout := c.stdout ++ Text.fromBytesLossy (e.bytesOf .out)
    stderr := c.stderr ++ Text.fromBytesLossy (e.bytesOf .err) }

/-- Reads the clock. -/
def now (f : Facilities) : Act Console String := fun c =>
  (.ok (f.clock c.readings), { c with readings := c.readings + 1 })

/-- Keeps the state of a run in a directory. -/
def save (m : RunMetadata) (directory : Path) : Act Console Unit := do
  let _ ← onHost (saveCheckpoint m directory)
  modify fun c => { c with checkpoints := c.checkpoints ++ [m] }

end Console

end Pipewright
