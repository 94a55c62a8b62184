import Pipewright.Composition
import Pipewright.Diagnostics
import Pipewright.Document.Parse
import Pipewright.Emission
import Pipewright.Project.Scaffold

/-!
# Generating a project

A document is turned into the files of a project: a module for each step, and the skeleton filled
with the composed workflow.  The steps are dealt with in execution order, each one as a whole,
so a step that fails leaves the modules of the steps before it.

* `GenerationSettings`, `GenerationReport`: what goes in and what comes out.
* `GenerationSettings.loadGraph`: the graph of the document at a path.
* `EmittedStep`, `GenerationSettings.emitStep`: a step as it has been dealt with.
* `GenerationSettings.generate`: the whole.
-/

namespace Pipewright

/-- Where a project is generated, and how. -/
structure GenerationSettings where
  output : Path := "."
  /-- The directory from which the files of the document are taken. -/
  home : Path := "."
  mapping : KernelMapping := .inverted
  policy : BindingPolicy := .firstMatch
  dataOutlet : String := Graph.defaultOutlet
  /-- The directory in which notebooks run. -/
  notebookDirectory : String := "."
deriving DecidableEq, Repr

instance : Inhabited GenerationSettings := ⟨{}⟩

/-- What has been generated. -/
structure GenerationReport where
  main : Path
  modules : List Path
  order : List StepName
  diagnostics : List Diagnostic
deriving DecidableEq, Repr

/-- A step that has been dealt with. -/
structure EmittedStep where
  node : Node
  name : StepName
  filename : String
  runtime : String
  bindings : List Binding
  process : ProcessModule
  modulePath : Path
deriving DecidableEq, Repr

/-- What the composed workflow needs of a step that has been dealt with. -/
def EmittedStep.composed (s : EmittedStep) : ComposedStep where
  name := s.name
  filename := s.filename
  runtime := s.runtime
  cpu := s.node.attributes.cpu
  inputs := s.node.attributes.inputFiles
  outputs := s.node.attributes.outputFiles
  bindings := s.bindings

namespace GenerationSettings

variable (settings : GenerationSettings) (provisioners : Provisioners)

/-! ## Loading -/

/-- The document at a path. -/
def loadDocument (input : Path) (d : Disk) : Except Error Document := do
  Document.parse (← (d.readText input).mapError Error.disk)

/-- The graph of the document at a path. -/
def loadGraph (input : Path) (d : Disk) : Except Error Graph := do
  return Graph.ofDocument (← loadDocument input d) settings.dataOutlet

/-! ## Paths -/

/-- The directory of the modules. -/
def modulesPath : Path := settings.output.join modulesDirectory

/-- The module of a step. -/
def modulePath (name : StepName) : Path := settings.modulesPath.join (name.text ++ ".nf")

/-- The directory of the descriptions of environments. -/
def environmentsPath : Path := settings.output.join environmentsDirectory

/-- The name of the environment of a step. -/
def environmentName (name : StepName) : String := name.text ++ "_env"

/-- The description of the environment of a step. -/
def descriptionPath (name : StepName) : Path :=
  settings.environmentsPath.join (environmentName name ++ ".yaml")

/-- The skeleton to fill. -/
def skeletonPath : Path := settings.output.join skeletonFile

/-- The filled skeleton. -/
def mainPath : Path := settings.output.join mainFile

/-- Where the document is kept. -/
def keptPath (input : Path) : Path := settings.output.join (baseName input)

/-! ## Steps -/

/-- The file that a step runs, taken from the home directory. -/
def sourcePath (node : Node) : Except Error Path :=
  match node.attributes.sourceFile? with
  | some file => .ok (settings.home.join file)
  | none => .error (.missingField node.id "filename")

/-- The description of an environment as it is written. -/
def descriptionText (a : Attributes) : String := Text.trim a.environmentYaml ++ "\n"

/-- The environment of a step.  It is made when the step declares none but comes with a
description. -/
def runtimeFor (node : Node) (name : StepName) : Act Journal String := do
  let a := node.attributes
  if !a.runtimeEnvironment.isEmpty || !a.hasEnvironmentYaml then
    return a.runtimeEnvironment
  Journal.files (DiskAct.makeDirectories settings.environmentsPath)
  Journal.change fun d => d.writeText (settings.descriptionPath name) (descriptionText a)
  Journal.environment provisioners (environmentName name) (settings.descriptionPath name)

/-- How processes are made. -/
def emission : Emission := ⟨provisioners, settings.mapping, settings.notebookDirectory⟩

/-- Deals with the step of a node after the steps that have been dealt with. -/
def emitStep (g : Graph) (handled : Handled) (node : Node) : Act Journal EmittedStep := do
  let name ← Act.settle (StepName.of node)
  let filename ← Act.settle (settings.sourcePath node)
  let runtime ← settings.runtimeFor provisioners node name
  let bindings ← Act.settle (g.bindStep settings.policy handled node name)
  let process ← (settings.emission provisioners).processFor
    ⟨node, name, filename, runtime, bindings.length⟩
  Journal.change fun d => d.writeText (settings.modulePath name) process.render
  return ⟨node, name, filename, runtime, bindings, process, settings.modulePath name⟩

/-- Deals with the steps of nodes that follow the steps that have been dealt with. -/
def emitSteps (g : Graph) : Handled → List Node → Act Journal (List EmittedStep)
  | _, [] => return []
  | handled, node :: rest => do
    let step ← settings.emitStep provisioners g handled node
    return step :: (← emitSteps g ((node.id, step.name) :: handled) rest)

/-! ## The project -/

/-- The skeleton of the project. -/
def loadSkeleton (d : Disk) : Except Error Skeleton := do
  let source ← (d.readText settings.skeletonPath).mapError fun fault =>
    Error.template (.unreadable settings.skeletonPath fault)
  (Skeleton.parse source).mapError fun fault => Error.template (.malformed fault)

/-- Fills the skeleton, which is removed then. -/
def writeMain (composition : Composition) : Act Journal Unit := do
  let skeleton ← Journal.ask settings.loadSkeleton
  Journal.change fun d => d.writeText settings.mainPath (skeleton.render composition.sections)
  Journal.change fun d => d.remove settings.skeletonPath

/-- Keeps a copy of the document beside the project, unless that is where it is. -/
def keepInput (input : Path) : Act Journal Unit := do
  unless (← get).host.disk.samePlace input (settings.keptPath input) do
    Journal.change fun d => d.copyFile input (settings.keptPath input)

/-- Generates the project of the document at a path. -/
def generate (input : Path) : Act Journal GenerationReport := do
  let g ← Journal.ask (settings.loadGraph input)
  let nodes ← Act.settle g.stepNodes
  Journal.files (DiskAct.makeDirectories settings.modulesPath)
  let steps ← settings.emitSteps provisioners g [] nodes
  settings.writeMain (Composition.ofSteps (steps.map EmittedStep.composed))
  settings.keepInput input
  return {
    main := settings.mainPath
    modules := steps.map EmittedStep.modulePath
    order := steps.map EmittedStep.name
    diagnostics := g.diagnostics }

end GenerationSettings

end Pipewright
