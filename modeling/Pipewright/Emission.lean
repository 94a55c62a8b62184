import Pipewright.Kernel.Provision
import Pipewright.Notebook
import Pipewright.ProcessModule
import Pipewright.Step.Name

/-!
# From steps to processes

What a step runs is told by its operator.  A notebook also needs a kernel, whose family follows
from the language of the notebook, and writes the executed notebook as one more output.

* `Request`, `Journal`: what is asked of the provisioners, in order.
* `Emission`: how processes are made.
* `Emission.processFor`: the process of a step.
-/

namespace Pipewright

/-- What is asked of the provisioners. -/
inductive Request where
  | kernel (runtime : Path) (family : KernelFamily)
  | environment (name : String) (description : Path)
deriving DecidableEq, Repr

/-- What happens to the host, with what has been asked of the provisioners, the first request
first. -/
structure Journal where
  host : Host
  requests : List Request := []
deriving Inhabited

namespace Journal

variable {α : Type}

/-- An action on the host. -/
def onHost (action : Act Host α) : Act Journal α :=
  Act.within Journal.host (fun h j => { j with host := h }) action

/-- An action on the disk. -/
def files (action : DiskAct α) : Act Journal α :=
  onHost (Host.files action)

/-- Makes one change of the disk. -/
def change (f : Disk → Except DiskFault Disk) : Act Journal Unit :=
  files (DiskAct.change f)

/-- Asks something of the disk. -/
def ask (question : Disk → Except Error α) : Act Journal α := fun j =>
  (question j.host.disk, j)

/-- Puts down a request. -/
def request (r : Request) : Act Journal Unit := fun j =>
  (.ok (), { j with requests := j.requests ++ [r] })

/-- Asks for a kernel. -/
def kernel (p : Provisioners) (runtime : Path) (family : KernelFamily) : Act Journal String := do
  request (.kernel runtime family)
  onHost (p.kernel runtime family)

/-- Asks for an environment. -/
def environment (p : Provisioners) (name : String) (description : Path) : Act Journal Path := do
  request (.environment name description)
  onHost (p.environment name description)

end Journal

/-- How processes are made: what provides kernels, how their families follow from languages, and
the directory in which notebooks run. -/
structure Emission where
  provisioners : Provisioners
  mapping : KernelMapping
  notebookDirectory : String

/-- What is known of a step before its process is made: the node, the name, the file to run, the
environment, and the number of inputs. -/
structure StepSource where
  node : Node
  name : StepName
  filename : String
  runtime : String
  inputCount : Nat

namespace StepSource

/-- The error about an operator that no process can be made of. -/
def unsupported (s : StepSource) (detail : String) : Error :=
  .unsupportedNode s.node.id s.name.text detail

/-- What is said when the language of a notebook cannot be read. -/
def unreadableText (s : StepSource) (e : Error) : String :=
  "cannot read notebook language from " ++ s.filename ++ ": " ++ e.message

/-- What is said when there is no kernel for the language of a notebook. -/
def languageText (s : StepSource) (e : Error) : String :=
  "notebook " ++ s.filename ++ ": " ++ e.message

/-- The family of the kernel that a notebook step needs.  A notebook without a language is taken
as one in a language without a name. -/
def family (s : StepSource) (mapping : KernelMapping) (d : Disk) : Except Error KernelFamily := do
  let language ← (notebookLanguage s.filename d).mapError fun e =>
    s.unsupported (s.unreadableText e)
  (mapping.family (language.getD "")).mapError fun e => s.unsupported (s.languageText e)

/-- The file that an executed notebook is written to. -/
def outputNotebook (s : StepSource) : String :=
  "run_" ++ baseName s.filename

/-- The process of a step with a command and some outputs more than the declared ones. -/
def processOf (s : StepSource) (command : ProcessCommand) (more : List String) : ProcessModule where
  label := s.name.label
  runtime := s.runtime
  cpu := s.node.attributes.cpu
  memory := s.node.attributes.memory
  settings := s.node.attributes.settings
  inputCount := s.inputCount
  outputs := s.node.attributes.outputFiles ++ more
  command := command

end StepSource

namespace Emission

/-- The process of a notebook step. -/
def notebookProcess (e : Emission) (s : StepSource) : Act Journal ProcessModule := do
  let family ← Journal.ask (s.family e.mapping)
  let kernel ← Journal.kernel e.provisioners s.runtime family
  let command := .notebook kernel e.notebookDirectory s.node.attributes.settings s.filename
    s.outputNotebook
  return s.processOf command [s.outputNotebook]

/-- The process of a step. -/
def processFor (e : Emission) (s : StepSource) : Act Journal ProcessModule :=
  match s.node.operator with
  | some .python => return s.processOf (.python s.filename) []
  | some .r => return s.processOf (.r s.filename) []
  | some .notebook => e.notebookProcess s
  | some (.unknown word) => throw (s.unsupported ("operator '" ++ word ++ "'"))
  | none => throw (s.unsupported "missing operator")

end Emission

end Pipewright
