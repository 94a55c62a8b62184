import Pipewright.Disk.Files

/-!
# Making and copying directories

What is done in several steps can fail after some of them; what has been done then stays.  Such
an operation is an action on the disk.

* `DiskAct`: actions on a disk.
* `makeDirectories`: a directory with all that it is in.
* `copyTree`: all that is in a directory.
-/

namespace Pipewright

/-- An action on a disk, which may fail. -/
abbrev DiskAct := ExceptT DiskFault (StateM Disk)

namespace DiskAct

/-- Asks something of the disk. -/
def ask {α : Type} (question : Disk → Except DiskFault α) : DiskAct α := fun d =>
  (question d, d)

/-- Makes one change of the disk. -/
def change (f : Disk → Except DiskFault Disk) : DiskAct Unit := fun d =>
  match f d with
  | .ok d' => (.ok (), d')
  | .error fault => (.error fault, d)

/-- Makes a directory, or leaves the one that is there. -/
def makeOrKeep (p : Path) : DiskAct Unit := fun d =>
  match d.makeDirectory p with
  | .ok d' => (.ok (), d')
  | .error fault => if d.isDirectory p then (.ok (), d) else (.error fault, d)

/-- Makes a directory, or leaves the one that is there.  When what it is in is missing, that is made
first. -/
def makeAfter (above : DiskAct Unit) (p : Path) : DiskAct Unit := fun d =>
  match d.makeDirectory p with
  | .error .notFound => (do above; makeOrKeep p : DiskAct Unit) d
  | _ => makeOrKeep p d

/-- Makes the directory along the first components of a path, with all that it is in. -/
def makeUpTo (p : Path) : Nat → DiskAct Unit
  | 0 => pure ()
  | n + 1 => makeAfter (makeUpTo p n) (p.upTo (n + 1))

/-- Makes a directory with all that it is in.  The empty path is the working directory, which is
there. -/
def makeDirectories (p : Path) : DiskAct Unit :=
  if p.isEmpty then pure () else makeAfter (makeUpTo p (p.components.length - 1)) p

/-- Copies all that is in a directory, at most so many levels deep.  The directory to copy to is
made before the entries are listed. -/
def copyLevels : Nat → Path → Path → DiskAct Unit
  | 0, _, _ => throw .nameTooLong
  | levels + 1, source, target => do
    makeDirectories target
    let entries ← ask fun d => d.list source
    entries.forM fun (name, e) =>
      if e.isDirectory then copyLevels levels (source.join name) (target.join name)
      else change fun d => d.copyFile (source.join name) (target.join name)

/-- Copies all that is in a directory into another one, over the files that are there.  No path
has more levels than it may have bytes. -/
def copyTree (source target : Path) : DiskAct Unit :=
  copyLevels Disk.pathLimit source target

end DiskAct

end Pipewright
