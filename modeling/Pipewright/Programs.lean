import Pipewright.Command
import Pipewright.Text.Lossy

/-!
# Programs

The program runs other programs: the tools that provide kernels and environments, and the workflow
engine.  What such a program does is up to the system.  It writes to two streams, may change the
disk, and ends with a code or by a signal, unless it cannot be started at all.

* `ExitStatus`, `ExitStatus.text`: how a program ends, and how that is said.
* `Execution`: what a program has written, and how it has ended.
* `Launcher`: whatever runs programs.
* `CommandRunner.ofLauncher`: running commands as programs.
-/

namespace Pipewright

/-! ## How programs end -/

/-- How a program ends. -/
inductive ExitStatus where
  | code (n : Nat)
  | signal (n : Nat)
deriving DecidableEq, Repr, Inhabited

namespace ExitStatus

/-- The program has ended well. -/
def success (s : ExitStatus) : Bool :=
  s = .code 0

/-- The names of the signals from number one on. -/
def signalNames : List String :=
  ["HUP", "INT", "QUIT", "ILL", "TRAP", "ABRT", "BUS", "FPE", "KILL", "USR1", "SEGV", "USR2",
    "PIPE", "ALRM", "TERM", "STKFLT", "CHLD", "CONT", "STOP", "TSTP", "TTIN", "TTOU", "URG",
    "XCPU", "XFSZ", "VTALRM", "PROF", "WINCH", "IO", "PWR", "SYS"]

/-- The name of a signal.  Signals with greater numbers have none. -/
def signalName? (n : Nat) : Option String :=
  if n = 0 then none else signalNames[n - 1]?

/-- How a program has ended, in words. -/
def text : ExitStatus → String
  | code n => "exit status: " ++ Text.decimal n
  | signal n =>
    "signal: " ++ Text.decimal n ++ ((signalName? n).map fun name => " (SIG" ++ name ++ ")").getD ""

/-- The code of a program that has been ended by a signal. -/
def signalCode : Int := -1

/-- The code that a program has left. -/
def toCode : ExitStatus → Int
  | code n => Int.ofNat n
  | signal _ => signalCode

end ExitStatus

/-! ## What programs write -/

/-- The streams that a program writes to. -/
inductive OutputStream where
  | out
  | err
deriving DecidableEq, Repr

/-- What a program has written, in order, and how it has ended. -/
structure Execution where
  output : List (OutputStream × List UInt8)
  status : ExitStatus
deriving Repr, Inhabited

namespace Execution

/-- The bytes that have been written to a stream. -/
def bytesOf (e : Execution) (stream : OutputStream) : List UInt8 :=
  (e.output.filter fun w => w.1 = stream).flatMap Prod.snd

/-- What a program has written and how it has ended, as the output of a command. -/
def toOutput (e : Execution) : CommandOutput where
  stdout := Text.fromBytesLossy (e.bytesOf .out)
  stderr := Text.fromBytesLossy (e.bytesOf .err)
  exitCode := e.status.toCode

end Execution

/-! ## Running programs -/

/-- Whatever runs programs: in a directory, and with a file that what they write goes behind, if one
is given. -/
abbrev Launcher := Path → Option Path → Command → Disk → Except DiskFault (Execution × Disk)

/-- Runs commands as programs in the working directory. -/
def CommandRunner.ofLauncher (launch : Launcher) : CommandRunner where
  run _ d c :=
    match launch "." none c d with
    | .ok (e, after) => (.ok e.toOutput, after)
    | .error fault => (.error (.provisioning c.text fault.message), d)

end Pipewright
