import Pipewright.Shell.Execution

/-!
# Running scripts as programs

Without an operating system at hand, programs are shell scripts that lie on the disk, together with
the few tools that such scripts are made of.  They are run in surroundings: the variables that they
see, among them the one that tells where programs are looked for.

This is one launcher among others.  It is what the program is run with, so that it can be tried
beside scripts that stand for its tools and for the workflow engine.  What is proved about the
program is proved for any launcher.

* `Surroundings`: the variables that programs see.
* `Surroundings.execute`: the launcher.
* `Surroundings.runner`: running commands as programs.
-/

namespace Pipewright

/-- The variables that programs see. -/
structure Surroundings where
  bindings : List (String × String)
deriving Repr, Inhabited

namespace Surroundings

/-- Where programs are looked for. -/
def search (s : Surroundings) : Option String :=
  some ((s.bindings.lookup "PATH").getD Shell.usualSearch)

/-- A state in which nothing has been run yet, and where all streams lead to. -/
def machine (d : Disk) (out err : Shell.Channel) : Shell.Machine where
  disk := d
  scope := {
    name := ""
    number := 0
    descriptors := [(0, .nowhere), (1, out), (2, err)] }

/-- Runs a program with arguments, whose streams lead somewhere. -/
def start (s : Surroundings) (d : Disk) (out err : Shell.Channel) (c : Command) :
    Except DiskFault (Execution × Disk) := do
  let _ ← Shell.imageOf d s.search c
  let run := Shell.runner Shell.runLimit
  match Shell.runCommand run Shell.environmentDepth s.search s.bindings c (machine d out err) with
  | (.ok (.ok status), m) => return (⟨m.output, status⟩, m.disk)
  | (.ok (.error fault), _) => throw fault
  | (.error _, m) => return (⟨m.output, .signal Shell.endlessSignal⟩, m.disk)

/-- Runs a program in a directory.  What it writes goes behind what the log holds, if there is
one. -/
def execute (s : Surroundings) (directory : Path) (log : Option Path) (c : Command) (d : Disk) :
    Except DiskFault (Execution × Disk) := do
  let (out, err) ← match log with
    | none => pure (Shell.Channel.stream .out, Shell.Channel.stream .err)
    | some p => do
      let (place, _) ← d.found p
      pure (Shell.Channel.file place, Shell.Channel.file place)
  match ← d.found directory with
  | (place, .directory _) =>
    let (e, after) ← s.start { d with workingDirectory := place } out err c
    return (e, { after with workingDirectory := d.workingDirectory })
  | (_, .file ..) => throw .notDirectory

/-! ## Running commands -/

/-- Runs commands as programs. -/
def runner (s : Surroundings) : CommandRunner :=
  .ofLauncher s.execute

/-- Runs a command as a program. -/
def runCommand (s : Surroundings) (d : Disk) (c : Command) : Except Error CommandOutput × Disk :=
  s.runner.run [] d c

end Surroundings

end Pipewright
