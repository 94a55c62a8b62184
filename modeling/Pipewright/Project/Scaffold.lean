import Pipewright.Command
import Pipewright.Skeleton

/-!
# Scaffolding

A project starts as a directory with a skeleton to fill, directories for modules and environments,
and what else its template brings along.

* `Template`: the bundled template or a directory of one's own.
* `scaffold`: making the directory.
-/

namespace Pipewright

/-! ## Names within a project -/

/-- The file of the skeleton. -/
def skeletonFile : String := "template.nf"

/-- The file of the filled skeleton. -/
def mainFile : String := "main.nf"

/-- The file of the configuration of the workflow engine. -/
def configFile : String := "nextflow.config"

/-- The directory of the modules. -/
def modulesDirectory : String := "modules"

/-- The directory of the descriptions of environments. -/
def environmentsDirectory : String := "env"

/-! ## Templates -/

/-- Where a project starts from. -/
inductive Template where
  | bundled
  /-- A directory that has a skeleton in it. -/
  | directory (path : Path)
deriving DecidableEq, Repr

namespace Template

/-- Puts a template into a directory. -/
def place (output : Path) : Template → Act Host Unit
  | bundled => do
    Host.change fun d => d.writeText (output.join skeletonFile) Skeleton.bundled
    Host.change fun d => d.writeText (output.join configFile) Skeleton.bundledConfig
  | directory p => do
    unless (← get).disk.isFile (p.join skeletonFile) do
      throw (.template (.absent p skeletonFile))
    Host.files (DiskAct.copyTree p output)

end Template

/-- Makes the directory of a project.  One that is there is refused, unless `force` is given; then
the template is put over what it holds. -/
def scaffold (output : Path) (template : Template) (force : Bool) : Act Host Unit := do
  if (← get).disk.exists output && !force then
    throw (.outputExists output)
  Host.files (DiskAct.makeDirectories output)
  template.place output
  Host.files (DiskAct.makeDirectories (output.join modulesDirectory))
  Host.files (DiskAct.makeDirectories (output.join environmentsDirectory))

end Pipewright
