import Pipewright.Command
import Pipewright.Kernel.Listing

/-!
# Providing kernels and environments

A notebook needs a kernel of the right family in the environment of its step, and a step may come
with an environment of its own.  Both are provided by the command line tools for them.

* `ToolNames`: the programs to call.
* `provisionKernel`: a kernel for an environment, an installed one or a new one.
* `createEnvironment`: an environment from its description.
* `Provisioners`: the two together, be they these or others.
-/

namespace Pipewright

/-- The names of the programs that provide kernels and environments. -/
structure ToolNames where
  jupyter : String := "jupyter"
  conda : String := "conda"
  mamba : String := "mamba"
deriving DecidableEq, Repr

instance : Inhabited ToolNames := ⟨{}⟩

/-- What provides kernels and environments. -/
structure Provisioners where
  /-- The name of a kernel of a family for the environment at a path. -/
  kernel : Path → KernelFamily → Act Host String
  /-- The path of an environment with a name, made from the description at a path. -/
  environment : String → Path → Act Host Path

/-! ## Kernels -/

namespace ToolNames

variable (tools : ToolNames) (runner : CommandRunner)

/-- The command that lists the kernels. -/
def listCommand : Command :=
  ⟨tools.jupyter, ["kernelspec", "list", "--json"]⟩

/-- The installed kernels, or none when they cannot be listed. -/
def installedKernels : Act Host (List InstalledKernel) := do
  match ← Act.attempt (Host.runChecked runner tools.listCommand) with
  | .error _ => return []
  | .ok o =>
    match InstalledKernel.parseList o.stdout with
    | .error _ => return []
    | .ok kernels => return kernels

/-- The names of the installed kernels that serve an environment. -/
def existingKernels (runtime : Path) (family : KernelFamily) : Act Host (List String) := do
  let kernels ← tools.installedKernels runner
  return (kernels.filter fun k => k.serves runtime family).map InstalledKernel.name

end ToolNames

namespace KernelFamily

/-- Where the package of a kernel comes from, and what it is called. -/
def package : KernelFamily → String × String
  | python => ("anaconda", "ipykernel")
  | r => ("conda-forge", "r-irkernel")

/-- What is run in an environment to make its kernel known under a name. -/
def registration (name : String) : KernelFamily → List String
  | python =>
    ["python", "-m", "ipykernel", "install", "--name", name, "--display-name", name, "--user"]
  | r =>
    ["Rscript", "-e",
      "IRkernel::installspec(name='" ++ name ++ "', displayname='" ++ name ++ "', user=TRUE)"]

end KernelFamily

namespace ToolNames

variable (tools : ToolNames) (runner : CommandRunner)

/-- The command that installs the package of a kernel. -/
def installCommand (runtime : Path) (family : KernelFamily) : Command :=
  ⟨tools.mamba, ["install", "-y", "-p", runtime, "-c", family.package.1, family.package.2]⟩

/-- The command that makes a kernel known. -/
def registerCommand (runtime : Path) (family : KernelFamily) (name : String) : Command :=
  ⟨tools.conda, ["run", "-p", runtime] ++ family.registration name⟩

/-- Installs a kernel under a name. -/
def installKernel (runtime : Path) (family : KernelFamily) (name : String) : Act Host Unit := do
  let _ ← Host.runChecked runner (tools.installCommand runtime family)
  let _ ← Host.runChecked runner (tools.registerCommand runtime family name)

/-- A kernel for the environment at a path: the first installed one that serves it, or a new
one. -/
def provisionKernel (runtime : Path) (family : KernelFamily) : Act Host String := do
  unless (← get).disk.exists runtime do
    throw (.environmentNotFound runtime)
  match ← tools.existingKernels runner runtime family with
  | name :: _ => return name
  | [] =>
    let name ← Act.settle (kernelNameFor runtime family)
    tools.installKernel runner runtime family name
    return name

end ToolNames

/-! ## Environments -/

open Json in
/-- The directories of environments, as the tool for them reports them. -/
def environmentDirectories : Decoder (List Path) := .record
  { name := "CondaInfo"
    blank := []
    fields := [
      { name := "envs_dirs"
        decoder := Decoder.path.list.sets fun x _ => x }] }

namespace ToolNames

variable (tools : ToolNames) (runner : CommandRunner)

/-- The command that reports the directories of environments. -/
def infoCommand : Command :=
  ⟨tools.conda, ["info", "--json"]⟩

/-- The command that removes an environment. -/
def removeCommand (name : String) : Command :=
  ⟨tools.conda, ["env", "remove", "-y", "--name", name]⟩

/-- The command that makes an environment. -/
def createCommand (name : String) (description : Path) : Command :=
  ⟨tools.mamba, ["env", "create", "-y", "-n", name, "-f", description]⟩

/-- The first of the directories of environments that a report lists. -/
def firstDirectory (report : String) : Except Error Path :=
  match environmentDirectories.parse report with
  | .error e => .error (.json e)
  | .ok [] => .error (.provisioning "conda info --json" "no envs_dirs reported")
  | .ok (directory :: _) => .ok directory

/-- The path of the environment with a name. -/
def environmentPath (name : String) : Act Host Path := do
  let o ← Host.runChecked runner tools.infoCommand
  let directory ← Act.settle (firstDirectory o.stdout)
  return directory.join name

/-- Makes an environment anew.  That there is no old one to remove is no failure. -/
def createEnvironment (name : String) (description : Path) : Act Host Path := do
  let _ ← Host.run runner (tools.removeCommand name)
  let _ ← Host.runChecked runner (tools.createCommand name description)
  tools.environmentPath runner name

/-- Kernels and environments from the tools. -/
def provisioners : Provisioners where
  kernel := tools.provisionKernel runner
  environment := tools.createEnvironment runner

end ToolNames

end Pipewright
