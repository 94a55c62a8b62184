import Pipewright.Disk.Basic

/-!
# All that a disk holds

* `Entry.contents`: all entries below an entry, each with the names on the way to it.
* `Disk.contents`: all entries below a place.
* `Disk.changes`: what differs between two disks.
-/

namespace Pipewright

mutual

/-- An entry and all entries below it, with the names on the way to them after `above`. -/
def Entry.contents (above : Location) : Entry → List (Location × Entry)
  | .file bytes executable => [(above, .file bytes executable)]
  | .directory cs => (above, .directory cs) :: contentsOf above cs

/-- All entries of a directory and below. -/
def contentsOf (above : Location) : List (String × Entry) → List (Location × Entry)
  | [] => []
  | (name, e) :: rest => e.contents (above ++ [name]) ++ contentsOf above rest

end

namespace Disk

/-- All entries below a place, with the names on the way from it. -/
def contents (d : Disk) (place : Location) : List (Location × Entry) :=
  match d.at? place with
  | some (.directory cs) => contentsOf [] cs
  | _ => []

/-- The entry is a file with the same bytes, or both are directories. -/
def sameContent : Entry → Option Entry → Bool
  | .file bytes _, some (.file others _) => bytes == others
  | .directory _, some (.directory _) => true
  | _, _ => false

/-- The entries below a place that one disk has and the other has not, or not with the same
content. -/
def changes (place : Location) (before after : Disk) : List (Location × Entry) :=
  (after.contents place).filter fun (p, e) => !sameContent e (before.at? (place ++ p))

end Disk

end Pipewright
