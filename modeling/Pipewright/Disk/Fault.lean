/-!
# Failures of file operations

What a file system answers when it cannot do what it is asked for.

* `DiskFault`, `DiskFault.message`: the failures and their wording.
-/

namespace Pipewright

/-- A failure of a file operation or of starting a program. -/
inductive DiskFault where
  /-- There is nothing under the name. -/
  | notFound
  /-- A directory cannot be read, for it is not one's own; nor can it be run. -/
  | permissionDenied
  /-- The file is no program. -/
  | notExecutable
  /-- There is something under the name already. -/
  | alreadyExists
  /-- A name that should be a directory is a file. -/
  | notDirectory
  /-- A name that should be a file is a directory. -/
  | isDirectory
  /-- The name is longer than names may be. -/
  | nameTooLong
  /-- The name has a zero character. -/
  | zeroInName
  /-- The file holds bytes that are no text. -/
  | notText
  /-- The file to copy is a directory. -/
  | notCopyable
  /-- Any other failure, in its own words. -/
  | stated (text : String)
deriving DecidableEq, Repr, Inhabited

namespace DiskFault

/-- The number under which the system knows the failure, if it does. -/
def number? : DiskFault → Option Nat
  | notFound => some 2
  | notExecutable => some 8
  | permissionDenied => some 13
  | alreadyExists => some 17
  | notDirectory => some 20
  | isDirectory => some 21
  | nameTooLong => some 36
  | zeroInName | notText | notCopyable | stated _ => none

/-- What the failure is called. -/
def name : DiskFault → String
  | notFound => "No such file or directory"
  | notExecutable => "Exec format error"
  | permissionDenied => "Permission denied"
  | alreadyExists => "File exists"
  | notDirectory => "Not a directory"
  | isDirectory => "Is a directory"
  | nameTooLong => "File name too long"
  | zeroInName => "file name contained an unexpected NUL byte"
  | notText => "stream did not contain valid UTF-8"
  | notCopyable => "the source path is neither a regular file nor a symlink to a regular file"
  | stated text => text

/-- The wording of a failure. -/
def message (f : DiskFault) : String :=
  match f.number? with
  | some n => f.name ++ " (os error " ++ String.ofList (Nat.toDigits 10 n) ++ ")"
  | none => f.name

end DiskFault

end Pipewright
