import Pipewright.CommandLine.Commands
import Pipewright.Disk.Contents
import Std.Time.Zoned

/-!
# The program

The program reads the working directory with all below it, works on what it has read, and writes
back what has changed.  Files elsewhere are not there for it, nor are programs that are no scripts.
-/

namespace Pipewright.Main

/-! ## Clock and chance -/

/-- A number in decimal digits, at least so many. -/
def padded (width n : Nat) : String :=
  let digits := Nat.toDigits 10 n
  String.ofList (List.replicate (width - digits.length) '0' ++ digits)

/-- A time as the states of runs show it. -/
def timeText (t : Std.Time.PlainDateTime) : String :=
  padded 2 t.day.val.toNat ++ "/" ++ padded 2 t.month.val.toNat ++ "/" ++
    padded 4 t.year.toInt.toNat ++ " " ++ padded 2 t.hour.val.toNat ++ ":" ++
    padded 2 t.minute.val.toNat ++ ":" ++ padded 2 t.second.val.toNat

/-- Random hexadecimal digits. -/
def randomDigits (count : Nat) : IO String := do
  let digits ← (List.range count).mapM fun _ => IO.rand 0 15
  return String.ofList (digits.map Nat.digitChar)

/-- An id that no run has. -/
def freshId : IO String := do
  let variant := Nat.digitChar (8 + (← IO.rand 0 3))
  return (← randomDigits 8) ++ "-" ++ (← randomDigits 4) ++ "-4" ++ (← randomDigits 3) ++ "-" ++
    String.singleton variant ++ (← randomDigits 3) ++ "-" ++ (← randomDigits 12)

/-! ## The disk -/

/-- Reads what a name of a directory stands for, with all below it. -/
partial def readEntry (e : IO.FS.DirEntry) : IO Entry := do
  if ← e.path.isDir then
    let children ← (← e.path.readDir).toList.mapM fun child => do
      return (child.fileName, ← readEntry child)
    return .directory children
  else
    return .file (← IO.FS.readBinFile e.path) true

/-- The disk of a host with nothing else but the working directory on it. -/
def readDisk (workingDirectory : Location) : IO Disk := do
  let here ← readEntry ⟨".", "."⟩
  let (_, d) := DiskAct.makeDirectories (Path.ofComponents true workingDirectory) Shell.hostDisk
  return { d.put workingDirectory here with workingDirectory := workingDirectory }

/-- Writes an entry of the working directory. -/
def writeEntry : Location × Entry → IO Unit
  | (place, .file bytes _) => IO.FS.writeBinFile (String.intercalate "/" place) bytes
  | (place, .directory _) => IO.FS.createDirAll (String.intercalate "/" place)

/-- Writes back what has changed in the working directory. -/
def writeDisk (workingDirectory : Location) (before after : Disk) : IO Unit := do
  for (place, e) in Disk.changes workingDirectory after before do
    if !e.isDirectory && (after.at? (workingDirectory ++ place)).isNone then
      IO.FS.removeFile (String.intercalate "/" place)
  for change in Disk.changes workingDirectory before after do
    writeEntry change

/-- Runs the program. -/
def run (arguments : List String) : IO UInt32 := do
  let place := Path.names (← IO.currentDir).toString
  let disk ← readDisk place
  let home ← IO.getEnv "HOME"
  let search ← IO.getEnv "PATH"
  let surroundings : Surroundings :=
    ⟨(home.map fun h => ("HOME", h)).toList ++ (search.map fun s => ("PATH", s)).toList⟩
  let time := timeText (← Std.Time.PlainDateTime.now)
  let facilities := Facilities.ofSurroundings surroundings home (fun _ => time) (← freshId)
  let outcome := runProgram facilities arguments disk
  writeDisk place disk outcome.disk
  IO.print outcome.stdout
  IO.eprint outcome.stderr
  return outcome.exitCode.toUInt32

end Pipewright.Main

/-- Runs the program with the arguments of its command line. -/
def main (arguments : List String) : IO UInt32 :=
  Pipewright.Main.run arguments
