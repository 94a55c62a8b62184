import Pipewright.Command
import Pipewright.Text.Lossy

/-!
# What is run when a program is started

A program is an executable file: the shell, one of the tools that every host has, or a text that
names its interpreter in its first line.

* `toolNames`, `hostDisk`: the programs that every host has.
* `candidates`, `findProgram`: where a program is.
* `Image`, `imageAt`: what is run for it.
-/

namespace Pipewright.Shell

/-! ## The programs of the host -/

/-- The names of the shell. -/
def shellNames : List String := ["sh", "dash", "bash"]

/-- The names of the tools. -/
def toolNames : List String :=
  ["[", "basename", "cat", "dirname", "echo", "env", "false", "head", "ls", "mkdir", "printf",
    "pwd", "rm", "seq", "sleep", "test", "touch", "true", "wc"]

/-- The directories that hold the programs. -/
def programDirectories : List Location := [["bin"], ["usr", "bin"]]

/-- The disk of a host on which nothing has been done yet.  It has the programs, and the file in
which there is never anything. -/
def hostDisk : Disk :=
  let empty : Disk := ⟨["bin", "dev", "etc", "home", "opt", "root", "tmp", "usr", "var"].map
    fun name => (name, .directory []), []⟩
  let programs := (shellNames ++ toolNames).map fun name => (name, Entry.file .empty true)
  let withPrograms := programDirectories.foldl
    (fun d place => d.put place (.directory programs)) empty
  withPrograms.put ["dev", "null"] (.file .empty false)

/-- The name of the program of the host at a place. -/
def hostProgram? (place : Location) : Option String :=
  if programDirectories.contains place.dropLast then
    place.getLast?.filter fun name => (shellNames ++ toolNames).contains name
  else none

/-! ## Finding programs -/

/-- Where programs are looked for when nothing is said about it. -/
def usualSearch : String := "/usr/local/sbin:/usr/local/bin:/usr/sbin:/usr/bin:/sbin:/bin"

/-- The paths at which a program may be. -/
def candidates (search : Option String) (program : String) : List Path :=
  ((search.map (Text.pieces ':')).getD []).map fun directory => Path.join directory program

/-- The place of the program at a path, with its bytes. -/
def programAt (d : Disk) (p : Path) : Except DiskFault (Location × ByteArray) := do
  match ← d.found p with
  | (place, .file bytes true) => return (place, bytes)
  | (_, .file _ false) => throw .permissionDenied
  | (_, .directory _) => throw .permissionDenied

/-- The first path at which there is a program.  What stands at a path but is no program is passed
over, and named when there is no program at all. -/
def firstProgram (d : Disk) (fault : DiskFault) : List Path → Except DiskFault Path
  | [] => .error fault
  | p :: rest =>
    match programAt d p with
    | .ok _ => .ok p
    | .error .permissionDenied => firstProgram d .permissionDenied rest
    | .error .notFound | .error .notDirectory => firstProgram d fault rest
    | .error other => .error other

/-- The path of a program. -/
def findProgram (d : Disk) (search : Option String) (program : String) : Except DiskFault Path :=
  if program.toList.contains '/' then do
    let _ ← programAt d program
    return program
  else if program.isEmpty then .error .notFound
  else firstProgram d .notFound (candidates search program)

/-! ## Images -/

/-- What is run for a program. -/
inductive Image where
  /-- The shell under a name, with arguments. -/
  | shell (name : String) (arguments : List String)
  /-- A tool that has been called by a name, with arguments. -/
  | tool (tool name : String) (arguments : List String)
deriving DecidableEq, Repr

/-- The interpreter that the first line of a text names, and the argument that it gets.  A text
without such a line is no program. -/
def interpreter? (text : List Char) : Option (String × List String) :=
  match text.takeWhile (· ≠ '\n') with
  | '#' :: '!' :: line =>
    let isBlank (c : Char) := c = ' ' || c = '\t'
    let bare := (line.dropWhile isBlank).reverse.dropWhile isBlank |>.reverse
    match bare.span fun c => !isBlank c with
    | ([], _) => none
    | (name, []) => some (String.ofList name, [])
    | (name, rest) => some (String.ofList name, [String.ofList (rest.dropWhile isBlank)])
  | _ => none

/-- How many interpreters may be interpreted themselves. -/
def interpreterLimit : Nat := 5

/-- What is run for the program at a path that has been called by a name. -/
def imageAt (d : Disk) : Nat → String → Path → List String → Except DiskFault Image
  | 0, _, _, _ => .error .notExecutable
  | n + 1, name, p, arguments => do
    let (place, bytes) ← programAt d p
    match hostProgram? place with
    | some program =>
      return if shellNames.contains program then .shell name arguments
        else .tool program name arguments
    | none =>
      match interpreter? (Text.fromBytesLossy (bytes.toList.take 256)).toList with
      | some (interpreter, argument) =>
        imageAt d n interpreter interpreter (argument ++ p :: arguments)
      | none => throw .notExecutable

/-- What is run for a command. -/
def imageOf (d : Disk) (search : Option String) (c : Command) : Except DiskFault Image := do
  if (c.program :: c.arguments).any fun s => s.toList.contains '\x00' then
    throw (.stated "nul byte found in provided data")
  imageAt d interpreterLimit c.program (← findProgram d search c.program) c.arguments

end Pipewright.Shell
