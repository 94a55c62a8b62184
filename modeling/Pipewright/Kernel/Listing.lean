import Pipewright.Kernel.Family
import Pipewright.Json.Decoder

/-!
# Installed kernels

The kernels that are installed are listed as a JSON object by name, each with the program that it
starts.

* `InstalledKernel`, `InstalledKernel.parseList`: reading the list.
* `InstalledKernel.serves`: the kernels that can be used for an environment.
* `kernelNameFor`: the name under which a new kernel is installed.
-/

namespace Pipewright

open Json

/-- An installed kernel: its name, its directory, and the program that it starts. -/
structure InstalledKernel where
  name : String
  directory : String
  executable : String
deriving DecidableEq, Repr

namespace InstalledKernel

/-- The command line of a kernel. -/
def commandDecoder : Decoder (List String) := .record
  { name := "KernelSpecBody"
    blank := []
    fields := [
      { name := "argv"
        decoder := Decoder.text.list.sets fun x _ => x }] }

/-- The directory and the command line of a kernel. -/
def entryDecoder : Decoder (String × List String) := .record
  { name := "KernelSpecEntry"
    blank := ("", [])
    fields := [
      { name := "resource_dir"
        decoder := Decoder.text.sets fun x e => (x, e.2) },
      { name := "spec", required := true
        decoder := commandDecoder.sets fun x e => (e.1, x) }] }

/-- The kernels of a list, in the order of their names. -/
def listDecoder : Decoder (List (String × String × List String)) := .record
  { name := "KernelSpecList"
    blank := []
    fields := [
      { name := "kernelspecs"
        decoder := entryDecoder.dictionary.sets fun x _ => x }] }

/-- The kernel of an entry, unless its command line is empty. -/
def ofEntry? : String × String × List String → Option InstalledKernel
  | (name, directory, executable :: _) => some ⟨name, directory, executable⟩
  | (_, _, []) => none

/-- Reads a list of kernels. -/
def parseList (text : String) : Except Error (List InstalledKernel) :=
  match listDecoder.parse text with
  | .ok entries => .ok (entries.filterMap ofEntry?)
  | .error e => .error (.json e)

/-- The program of the kernel has the path of the environment in its own path and belongs to the
family. -/
def serves (k : InstalledKernel) (runtime : String) (family : KernelFamily) : Bool :=
  Text.occursIn runtime k.executable && family.isInterpreter k.executable

end InstalledKernel

/-- The part of a path before the name of an environment. -/
def environmentsSegment : String := "/.conda/envs/"

/-- A text without the slashes at its end. -/
def withoutTrailingSlashes (s : String) : String :=
  String.ofList (s.toList.reverse.dropWhile (· = '/')).reverse

/-- The name of the environment at a path, if the path tells it. -/
def environmentName? (runtime : String) : Option String :=
  ((Text.after? environmentsSegment runtime).map withoutTrailingSlashes).filter fun n => n ≠ ""

/-- The name under which a kernel of a family is installed for an environment. -/
def kernelNameFor (runtime : String) (family : KernelFamily) : Except Error String :=
  match environmentName? runtime with
  | some name => .ok (name ++ "_" ++ family.toText)
  | none =>
    .error (.provisioning "kernel naming"
      ("environment path '" ++ runtime ++ "' is not under a '" ++ environmentsSegment ++
        "' directory"))

end Pipewright
