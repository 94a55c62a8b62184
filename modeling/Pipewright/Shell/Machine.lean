import Pipewright.Disk.Files
import Pipewright.Shell.Format
import Pipewright.Shell.Script
import Pipewright.Shell.Signal

/-!
# The state of a running script

A script has parameters, functions and descriptors of its own, and works on a disk with all other
scripts.  A step may leave what it is in the middle of: a loop, a function, or the script.

* `Channel`, `Scope`, `Machine`: what descriptors lead to, and the state.
* `Leap`, `Run`: steps.
* `write`, `complain`, `fail`: writing.
* `openOutput`, `openInput`, `takeLine`: descriptors.
-/

namespace Pipewright

namespace Shell

/-! ## The state -/

/-- What a descriptor leads to. -/
inductive Channel where
  | stream (s : OutputStream)
  /-- The end of a file. -/
  | file (place : Location)
  /-- Bytes that are written at the end and read from the start. -/
  | buffer (number : Nat)
  | nowhere
deriving DecidableEq, Repr

/-- A variable.  It may be without a value. -/
structure Variable where
  value : Option String
  /-- Programs that are run see it. -/
  exported : Bool := false
  readOnly : Bool := false
deriving DecidableEq, Repr, Inhabited

/-- What a script has of its own. -/
structure Scope where
  name : String
  /-- Its number among the programs that run. -/
  number : Nat
  arguments : List String := []
  bindings : List (String × Variable) := []
  functions : List (String × Script) := []
  /-- The letters of the options that are set. -/
  options : List Char := []
  /-- What is done at signals; the end of the script has the number zero. -/
  traps : List (Nat × String) := []
  descriptors : List (Nat × Channel) := []
  /-- The variables that are local to the function that is running, with what they were before. -/
  locals : Option (List (String × Option Variable)) := none
  /-- The number of loops that are running in the function. -/
  loops : Nat := 0
  /-- Where the next option is read: the number of the argument to read, and how much has been
  read of the one before it, if there is more to read. -/
  optionPlace : Nat × Option Nat := (1, none)
  /-- The line of the command that is running. -/
  line : Nat := 1
  /-- What messages name besides the script and the line. -/
  within : String := ""
  /-- The code that the last command has left. -/
  status : Nat := 0
  /-- The code that the last script has left whose output has been put in. -/
  substituted : Nat := 0
  /-- The codes of the scripts that have been run in the background, the last one first. -/
  jobs : List (Nat × Nat) := []
deriving Inhabited

/-- The state while scripts run. -/
structure Machine where
  disk : Disk
  scope : Scope
  buffers : List (List UInt8) := []
  /-- The number of programs that have been started. -/
  started : Nat := 1
  output : List (OutputStream × List UInt8) := []
deriving Inhabited

/-- What a step leaves. -/
inductive Leap where
  /-- The script, with a code. -/
  | exit (code : Nat)
  /-- The script, by a signal. -/
  | killed (signal : Nat)
  /-- The command of the shell that has failed; if it is a special one, or there is none, the
  script. -/
  | failed
  /-- So many loops. -/
  | leaveLoop (count : Nat)
  /-- One loop fewer than so many, and the round of the next one. -/
  | nextRound (count : Nat)
  /-- The function. -/
  | leaveFunction
deriving DecidableEq, Repr

/-- A step of a running script. -/
abbrev Run := ExceptT Leap (StateM Machine)

/-- Changes the scope. -/
def changeScope (f : Scope → Scope) : Run Unit :=
  modify fun m => { m with scope := f m.scope }

/-- Sets the code that the last command has left. -/
def leave (code : Nat) : Run Unit :=
  changeScope fun s => { s with status := code }

/-- The last command has succeeded. -/
def succeeded : Run Bool := do
  return (← get).scope.status = 0

/-- Does something, and something else after it even if it leaps. -/
def thenAlways {α : Type} (action : Run α) (after : Run Unit) : Run α := fun m =>
  match action m with
  | (.ok a, m') => (do after; return a : Run α) m'
  | (.error leap, m') => (do after; throw leap : Run α) m'

/-! ## Parameters -/

/-- The letters of the options, in the order in which they are shown. -/
def optionLetters : List Char :=
  ['p', 'u', 'b', 'a', 'C', 'E', 'V', 'v', 'x', 's', 'n', 'm', 'i', 'I', 'f', 'e']

namespace Scope

/-- An option is set. -/
def has (s : Scope) (option : Char) : Bool :=
  s.options.contains option

/-- What a descriptor leads to, if it is open. -/
def channel? (s : Scope) (descriptor : Nat) : Option Channel :=
  s.descriptors.lookup descriptor

/-- The scope with a descriptor that leads somewhere, or is closed. -/
def connect (s : Scope) (descriptor : Nat) (channel : Option Channel) : Scope :=
  { s with descriptors :=
      (channel.map fun c => (descriptor, c)).toList ++
        s.descriptors.filter fun d => d.1 ≠ descriptor }

/-- The scope with other arguments, the first of which may be the next option. -/
def withArguments (s : Scope) (arguments : List String) : Scope :=
  { s with arguments := arguments, optionPlace := (1, none) }

/-- The value of a variable. -/
def valueOf? (s : Scope) (name : String) : Option String :=
  (s.bindings.lookup name).bind Variable.value

/-- What stands between values that are put in a row. -/
def separator (s : Scope) : String :=
  match s.valueOf? "IFS" with
  | some ifs => String.ofList (ifs.toList.take 1)
  | none => " "

/-- The value of a parameter. -/
def value? (s : Scope) (name : String) : Option String :=
  match name with
  | "#" => some (Text.decimal s.arguments.length)
  | "?" => some (Text.decimal s.status)
  | "$" => some (Text.decimal s.number)
  | "!" => s.jobs.head?.map fun j => Text.decimal j.1
  | "-" => some (String.ofList (optionLetters.filter s.has))
  | "0" => some s.name
  | "@" | "*" =>
    if s.arguments.isEmpty then none else some (String.intercalate s.separator s.arguments)
  | _ =>
    match Text.natural? name with
    | some n => s.arguments[n - 1]?
    | none => s.valueOf? name

/-- The scope with what `change` makes of a variable. -/
def alterVariable (s : Scope) (name : String) (change : Option Variable → Option Variable) :
    Scope :=
  { s with bindings := alterKey name change s.bindings }

/-- The scope with a value for a variable. -/
def setVariable (s : Scope) (name value : String) : Scope :=
  s.alterVariable name fun v => some { v.getD ⟨none, false, false⟩ with value := some value }

/-- The variables that programs see. -/
def environment (s : Scope) : List (String × String) :=
  s.bindings.filterMap fun (name, v) => if v.exported then v.value.map fun a => (name, a) else none

end Scope

/-! ## Buffers -/

/-- A new buffer that holds bytes. -/
def newBuffer (bytes : List UInt8) : Run Channel := fun m =>
  (.ok (.buffer m.buffers.length), { m with buffers := m.buffers ++ [bytes] })

/-- The bytes that can be read from a channel. -/
def Machine.readable (m : Machine) : Option Channel → List UInt8
  | some (.buffer n) => m.buffers[n]?.getD []
  | _ => []

/-- Leaves other bytes to be read from a channel. -/
def Machine.leaveBytes (m : Machine) (bytes : List UInt8) : Option Channel → Machine
  | some (.buffer n) => { m with buffers := m.buffers.set n bytes }
  | _ => m

/-- Reads all that a descriptor leads to. -/
def takeAll (descriptor : Nat) : Run (List UInt8) := fun m =>
  let channel := m.scope.channel? descriptor
  (.ok (m.readable channel), m.leaveBytes [] channel)

/-- Reads a line, and tells whether it has an end. -/
def takeLine (descriptor : Nat) : Run (List UInt8 × Bool) := fun m =>
  let channel := m.scope.channel? descriptor
  match (m.readable channel).span (· ≠ 10) with
  | (line, _ :: rest) => (.ok (line, true), m.leaveBytes rest channel)
  | (line, []) => (.ok (line, false), m.leaveBytes [] channel)

/-! ## Writing -/

/-- Writes bytes behind what a channel holds. -/
def Machine.write (m : Machine) (bytes : List UInt8) : Option Channel → Machine
  | some (.stream s) => { m with output := m.output ++ [(s, bytes)] }
  | some (.buffer n) => { m with buffers := m.buffers.modify n (· ++ bytes) }
  | some (.file place) =>
    match m.disk.at? place with
    | some (.file before executable) =>
      { m with disk := m.disk.put place (.file (before ++ ⟨bytes.toArray⟩) executable) }
    | _ => m
  | some .nowhere | none => m

/-- Writes bytes to where a descriptor leads. -/
def write (descriptor : Nat) (bytes : List UInt8) : Run Unit :=
  if bytes.isEmpty then pure ()
  else modify fun m => m.write bytes (m.scope.channel? descriptor)

/-- Writes a text to where a descriptor leads. -/
def writeText (descriptor : Nat) (text : String) : Run Unit :=
  write descriptor (textBytes text)

/-- Writes a message of the shell. -/
def say (text : String) : Run Unit := do
  let s := (← get).scope
  writeText 2 (s.name ++ ": " ++ Text.decimal s.line ++ ": " ++ s.within ++ text ++ "\n")

/-- Writes a message of the shell and leaves a code. -/
def complain (text : String) (code : Nat) : Run Unit := do
  say text
  leave code

/-- The code of what has failed. -/
def failureCode : Nat := 2

/-- Writes a message of the shell and fails. -/
def fail {α : Type} (text : String) : Run α := do
  say text
  throw .failed

/-- Gives a variable a value.  One of them tells which argument may be the next option. -/
def assign (name value : String) : Run Unit := do
  match (← get).scope.bindings.lookup name with
  | some ⟨_, _, true⟩ => fail (name ++ ": is read only")
  | _ => changeScope fun s =>
    let place := if name = "OPTIND" then (max 1 ((Text.natural? value).getD 1), none)
      else s.optionPlace
    { s.setVariable name value with optionPlace := place }

/-! ## Files -/

/-- What is said of a file that cannot be opened to be written or to be read. -/
def openingText (writing : Bool) (p : Path) (fault : DiskFault) : String :=
  let reason := match fault with
    | .notFound | .notDirectory => if writing then "Directory nonexistent" else "No such file"
    | other => other.name
  (if writing then "cannot create " else "cannot open ") ++ p ++ ": " ++ reason

/-- The descriptor that a path names, if it names one. -/
def descriptorAt? (p : Path) : Option Nat :=
  match p with
  | "/dev/stdin" | "/dev/fd/0" => some 0
  | "/dev/stdout" | "/dev/fd/1" => some 1
  | "/dev/stderr" | "/dev/fd/2" => some 2
  | _ => none

/-- Opens a file to write to.  There is a message when that cannot be done. -/
def openOutput (append : Bool) (p : Path) : Run (Except String Channel) := fun m =>
  if p = "/dev/null" then (.ok (.ok .nowhere), m)
  else
    match (descriptorAt? p).bind m.scope.channel? with
    | some channel => (.ok (.ok channel), m)
    | none =>
      match do
        let d ← if append then m.disk.append p .empty else m.disk.write p .empty
        let (place, _) ← d.found p
        return (place, d) with
      | .ok (place, d) => (.ok (.ok (.file place)), { m with disk := d })
      | .error fault => (.ok (.error (openingText true p fault)), m)

/-- Opens a file to read from.  There is a message when that cannot be done. -/
def openInput (p : Path) : Run (Except String Channel) := do
  let m ← get
  if p = "/dev/null" then return .ok .nowhere
  match (descriptorAt? p).bind m.scope.channel? with
  | some channel => return .ok channel
  | none =>
    match m.disk.entry p with
    | .ok (.file bytes _) => return .ok (← newBuffer bytes.toList)
    | .ok (.directory _) => return .ok .nowhere
    | .error fault => return .error (openingText false p fault)

end Shell

end Pipewright
