import Pipewright.Text.Pieces

/-!
# Paths

A path names a file by the directories on the way to it, between slashes.  A path that starts with
a slash is absolute; any other path is taken from the working directory.

* `Path.join`: a path taken from a directory.
* `Path.components`: the names along a path.
* `Path.upTo`, `Path.parent?`: the directories on the way to a path.
-/

namespace Pipewright

/-- The text of a path. -/
abbrev Path := String

namespace Path

/-- The path starts at the root. -/
def isAbsolute (p : Path) : Bool :=
  p.toList.head? = some '/'

/-- The path ends in a slash, so only a directory can be meant. -/
def endsInSlash (p : Path) : Bool :=
  p.toList.getLast? = some '/'

/-- A path taken from a directory.  An absolute path stays what it is. -/
def join (directory p : Path) : Path :=
  if p.isAbsolute then p
  else if directory.isEmpty || directory.endsInSlash then directory ++ p
  else directory ++ "/" ++ p

@[simp] theorem join_of_isAbsolute {directory p : Path} (h : p.isAbsolute = true) :
    join directory p = p := by
  simp [join, h]

/-- The names along a path.  Slashes in a row count as one. -/
def names (p : Path) : List String :=
  (Text.pieces '/' p).filter fun n => !n.isEmpty

/-- The names along a path without those that stay where they are, except for one at the start. -/
def components (p : Path) : List String :=
  match p.names with
  | [] => []
  | n :: rest => (if n = "." && p.isAbsolute then [] else [n]) ++ rest.filter fun m => m ≠ "."

/-- The path along components from the root or from the working directory. -/
def ofComponents (absolute : Bool) (cs : List String) : Path :=
  (if absolute then "/" else "") ++ String.intercalate "/" cs

/-- The path along the first components of a path, so many of them. -/
def upTo (p : Path) (n : Nat) : Path :=
  ofComponents p.isAbsolute (p.components.take n)

/-- The directory that a path is in.  Only the root and the empty path are in none. -/
def parent? (p : Path) : Option Path :=
  if p.components.isEmpty then none else some (p.upTo (p.components.length - 1))

end Path

end Pipewright
