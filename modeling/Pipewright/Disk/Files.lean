import Pipewright.Disk.Basic

/-!
# Reading and writing a disk

Each operation takes a path and either makes one change or fails without any.  What fails is
decided in the order in which a file system looks: first along the path, then at its end.

* `Disk.entry`, `Disk.exists`, `Disk.isFile`, `Disk.isDirectory`: what a path names.
* `Disk.readBytes`, `Disk.readText`, `Disk.list`: reading.
* `Disk.write`, `Disk.append`, `Disk.remove`, `Disk.makeDirectory`, `Disk.copyFile`: changing.
* `Disk.samePlace`: two paths that name one entry.
-/

namespace Pipewright

namespace Disk

variable (d : Disk)

/-! ## Looking -/

/-- The place of an entry that is there, with the entry. -/
def found (p : Path) : Except DiskFault (Location × Entry) := do
  match ← d.locate p with
  | ⟨_, none⟩ => throw .notFound
  | ⟨place, some e⟩ =>
    if p.endsInSlash && !e.isDirectory then throw .notDirectory
    return (place, e)

/-- What a path names. -/
def entry (p : Path) : Except DiskFault Entry := do
  return (← d.found p).2

/-- The path names something. -/
def «exists» (p : Path) : Bool :=
  (d.entry p).isOk

/-- The path names a directory. -/
def isDirectory (p : Path) : Bool :=
  match d.entry p with
  | .ok e => e.isDirectory
  | .error _ => false

/-- The path names a file. -/
def isFile (p : Path) : Bool :=
  match d.entry p with
  | .ok e => !e.isDirectory
  | .error _ => false

/-- The path names something; that it names nothing is no failure. -/
def tryExists (p : Path) : Except DiskFault Bool :=
  match d.entry p with
  | .ok _ => .ok true
  | .error .notFound => .ok false
  | .error fault => .error fault

/-- Both paths name something, and the same. -/
def samePlace (p q : Path) : Bool :=
  match d.found p, d.found q with
  | .ok (a, _), .ok (b, _) => a = b
  | _, _ => false

/-! ## Reading -/

/-- The bytes of a file. -/
def readBytes (p : Path) : Except DiskFault ByteArray := do
  match ← d.entry p with
  | .file bytes _ => return bytes
  | .directory _ => throw .isDirectory

/-- The text of a file. -/
def readText (p : Path) : Except DiskFault String := do
  match String.fromUTF8? (← d.readBytes p) with
  | some text => return text
  | none => throw .notText

/-- The entries of a directory. -/
def list (p : Path) : Except DiskFault (List (String × Entry)) := do
  match ← d.entry p with
  | .directory cs => return cs
  | .file .. => throw .notDirectory

/-! ## Changing -/

/-- The place to write a file to, with the bytes there and whether it can be run. -/
def fileAt (p : Path) : Except DiskFault (Location × ByteArray × Bool) := do
  let target ← d.locate p
  if p.endsInSlash then throw .isDirectory
  match target.entry with
  | some (.directory _) => throw .isDirectory
  | some (.file bytes executable) => return (target.place, bytes, executable)
  | none => return (target.place, .empty, false)

/-- Writes a file.  What a file held before is gone. -/
def write (p : Path) (bytes : ByteArray) : Except DiskFault Disk := do
  let (place, _, executable) ← d.fileAt p
  return d.put place (.file bytes executable)

/-- Writes a file with a text. -/
def writeText (p : Path) (text : String) : Except DiskFault Disk :=
  d.write p text.toUTF8

/-- Writes behind what a file holds. -/
def append (p : Path) (bytes : ByteArray) : Except DiskFault Disk := do
  let (place, before, executable) ← d.fileAt p
  return d.put place (.file (before ++ bytes) executable)

/-- Removes a file. -/
def remove (p : Path) : Except DiskFault Disk := do
  match ← d.found p with
  | (_, .directory _) => throw .isDirectory
  | (place, .file ..) => return d.erase place

/-- Makes a directory. -/
def makeDirectory (p : Path) : Except DiskFault Disk := do
  match ← d.locate p with
  | ⟨_, some _⟩ => throw .alreadyExists
  | ⟨place, none⟩ => return d.put place (.directory [])

/-- Copies a file.  The file to write to is emptied before anything is read, so a file that is
copied to itself ends up empty. -/
def copyFile (source target : Path) : Except DiskFault Disk := do
  match ← d.found source with
  | (_, .directory _) => throw .notCopyable
  | (origin, .file _ executable) =>
    let (place, _, _) ← d.fileAt target
    let emptied := d.put place (.file .empty executable)
    match emptied.at? origin with
    | some (.file bytes _) => return emptied.put place (.file bytes executable)
    | _ => return emptied

end Disk

end Pipewright
