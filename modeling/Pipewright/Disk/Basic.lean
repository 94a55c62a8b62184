import Pipewright.Disk.Fault
import Pipewright.Disk.Path
import Pipewright.Keyed

/-!
# Disks

A disk is a tree of directories with files at its leaves.  A place of the tree is told by the
names on the way from the root to it, and every change is made at one place.

There are no links: neither symbolic ones, by which a path could lead to another place than its names
tell, nor hard ones, by which one file could be at two places.  There are no permissions either:
whatever is there can be read, written, listed and taken away, and the only right that is kept is
whether a file can be run.  Pipes, devices, sockets and other special files are not modelled, and
neither are owners, times of changes and a disk that is full.

* `Entry`, `Disk`: the tree, and the directory in which relative paths start.
* `Disk.at?`: what is at a place.
* `Disk.put`, `Disk.erase`: the tree with something else at a place.
* `Disk.locate`: the place that a path names, if it names one.
-/

namespace Pipewright

/-- What a name of a directory stands for: a file or a directory, and never a link or a special
file. -/
inductive Entry where
  /-- A file with its bytes; an executable file can be run. -/
  | file (bytes : ByteArray) (executable : Bool)
  /-- A directory with its entries, in the order in which they came to be. -/
  | directory (children : List (String × Entry))
deriving Inhabited

/-- The names on the way from the root. -/
abbrev Location := List String

/-- A disk: the entries of its root, and the working directory. -/
structure Disk where
  children : List (String × Entry)
  workingDirectory : Location
deriving Inhabited

namespace Entry

/-- The entry is a directory. -/
def isDirectory : Entry → Bool
  | directory _ => true
  | file .. => false

/-- The entries of a directory; a file has none. -/
def children : Entry → List (String × Entry)
  | directory cs => cs
  | file .. => []

/-- What is at a place below an entry. -/
def at? : Entry → Location → Option Entry
  | e, [] => some e
  | e, name :: rest =>
    match e.children.lookup name with
    | some child => child.at? rest
    | none => none

/-- What a change at a place makes of an entry, when all above the place is there. -/
def alter (change : Option Entry → Option Entry) : Location → Option Entry → Option Entry
  | [], e => change e
  | name :: rest, some (directory cs) => some (directory (alterKey name (alter change rest) cs))
  | _ :: _, e => e

end Entry

namespace Disk

/-- The root as an entry. -/
def root (d : Disk) : Entry := .directory d.children

/-- What is at a place. -/
def at? (d : Disk) (place : Location) : Option Entry :=
  d.root.at? place

/-- The disk with a change made at a place. -/
def alter (d : Disk) (place : Location) (change : Option Entry → Option Entry) : Disk :=
  match Entry.alter change place (some d.root) with
  | some (.directory cs) => { d with children := cs }
  | _ => d

/-- The disk with an entry at a place. -/
def put (d : Disk) (place : Location) (e : Entry) : Disk :=
  d.alter place fun _ => some e

/-- The disk without the entry at a place. -/
def erase (d : Disk) (place : Location) : Disk :=
  d.alter place fun _ => none

/-! ## From paths to places -/

/-- The greatest number of bytes of a name. -/
def nameLimit : Nat := 255

/-- The number of bytes that a path has to stay below. -/
def pathLimit : Nat := 4096

/-- What a path leads to: a place, and what is there.  There may be nothing, but then the directory
that it would be in is there. -/
structure Target where
  place : Location
  entry : Option Entry

/-- The entries passed on the way from the root, the last one first, with their names. -/
abbrev Trail := List (String × Entry)

/-- The place at the end of a trail. -/
def Trail.place (trail : Trail) : Location :=
  trail.reverse.map Prod.fst

/-- Where names lead from the end of a trail. -/
def walk (d : Disk) (trail : Trail) : List String → Except DiskFault Target
  | [] => .ok ⟨trail.place, some ((trail.head?.map Prod.snd).getD d.root)⟩
  | name :: rest =>
    match (trail.head?.map Prod.snd).getD d.root with
    | .file .. => .error .notDirectory
    | .directory cs =>
      if name = "." then d.walk trail rest
      else if name = ".." then d.walk (trail.drop 1) rest
      else if nameLimit < name.utf8ByteSize then .error .nameTooLong
      else
        match cs.lookup name with
        | some e => d.walk ((name, e) :: trail) rest
        | none => if rest.isEmpty then .ok ⟨trail.place ++ [name], none⟩ else .error .notFound

/-- Where a path leads. -/
def locate (d : Disk) (p : Path) : Except DiskFault Target :=
  if '\x00' ∈ p.toList then .error .zeroInName
  else if p.isEmpty then .error .notFound
  else if pathLimit ≤ p.utf8ByteSize then .error .nameTooLong
  else d.walk [] ((if p.isAbsolute then [] else d.workingDirectory) ++ p.names)

end Disk

end Pipewright
