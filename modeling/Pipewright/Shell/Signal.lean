import Pipewright.Programs
import Pipewright.Text.Whole

/-!
# Signals

A script may send signals, and tells how its programs have been ended by them.

* `Shell.signalPhrases`, `Shell.signalNumber?`: the signals.
* `Shell.ignoredSignals`: the signals that end no program by themselves.
* `ExitStatus.shellCode`: the end of a program as a code.
-/

namespace Pipewright

namespace Shell

/-- What is said of a program that a signal has ended, for the signals from number one on. -/
def signalPhrases : List String :=
  ["Hangup", "Interrupt", "Quit", "Illegal instruction", "Trace/breakpoint trap", "Aborted",
    "Bus error", "Floating point exception", "Killed", "User defined signal 1",
    "Segmentation fault", "User defined signal 2", "Broken pipe", "Alarm clock", "Terminated",
    "Stack fault", "Child exited", "Continued", "Stopped (signal)", "Stopped",
    "Stopped (tty input)", "Stopped (tty output)", "Urgent I/O condition",
    "CPU time limit exceeded", "File size limit exceeded", "Virtual timer expired",
    "Profiling timer expired", "Window changed", "I/O possible", "Power failure",
    "Bad system call"]

/-- The greatest number of a signal. -/
def signalLimit : Nat := 64

/-- The number of a signal that is given by its number, or by its name in any case. -/
def signalNumber? (s : String) : Option Nat :=
  match Text.natural? s with
  | some n => if n ≤ signalLimit then some n else none
  | none => (ExitStatus.signalNames.idxOf? s.toUpper).map (· + 1)

/-- The signals that a program does not notice unless it asks for them. -/
def ignoredSignals : List Nat := [17, 18, 23, 28]

end Shell

/-- The code that the shell sees: a program that a signal has ended leaves the number of the signal
and 128. -/
def ExitStatus.shellCode : ExitStatus → Nat
  | code n => n
  | signal n => 128 + n

end Pipewright
