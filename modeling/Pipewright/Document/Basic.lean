import Pipewright.Text.Blank

/-!
# Pipeline documents

A document holds pipelines, a pipeline holds nodes, and a node has groups of links to the nodes
before it.  Only execution nodes are steps of a workflow; what such a node runs is told by its
operator and its attributes.

* `Link`, `LinkGroup`: references to other nodes by id.
* `NodeKind`, `Operator`: closed sets with a place for any other word.
* `Attributes`: the file a node runs, its environment, its limits, its inputs and outputs.
* `Node`, `Pipeline`, `Document`.
-/

namespace Pipewright

/-! ## Links -/

/-- A reference to another node, which may name an outlet of that node. -/
structure Link where
  target : String
  outlet : Option String
deriving DecidableEq, Repr, Inhabited

/-- Links that arrive at one inlet of a node. -/
structure LinkGroup where
  id : Option String
  links : List Link
deriving DecidableEq, Repr, Inhabited

/-! ## Kinds and operators -/

/-- What a node is. -/
inductive NodeKind where
  /-- A step of the workflow. -/
  | execution
  /-- Any other kind of node, by its word. -/
  | other (word : String)
  | unspecified
deriving DecidableEq, Repr

namespace NodeKind

instance : Inhabited NodeKind := ⟨unspecified⟩

/-- The kind that a word names. -/
def ofText (word : String) : NodeKind :=
  if word = "execution_node" then execution
  else if word = "" then unspecified
  else other word

/-- The word of a kind. -/
def toText : NodeKind → String
  | execution => "execution_node"
  | other word => word
  | unspecified => ""

/-- A word names a kind whose word it is. -/
@[simp] theorem toText_ofText (word : String) : (ofText word).toText = word := by
  unfold ofText
  split
  · simp [toText, *]
  · split <;> simp [toText, *]

end NodeKind

/-- What a step runs. -/
inductive Operator where
  | python
  | r
  | notebook
  /-- A word that names no operator.  No step can be made of it. -/
  | unknown (word : String)
deriving DecidableEq, Repr

namespace Operator

/-- The operator that a word names. -/
def ofText (word : String) : Operator :=
  if word = "python-node" then python
  else if word = "r-node" then r
  else if word = "notebook-node" then notebook
  else unknown word

/-- The word of an operator. -/
def toText : Operator → String
  | python => "python-node"
  | r => "r-node"
  | notebook => "notebook-node"
  | unknown word => word

/-- A word names an operator whose word it is. -/
@[simp] theorem toText_ofText (word : String) : (ofText word).toText = word := by
  unfold ofText
  split
  · simp [toText, *]
  · split
    · simp [toText, *]
    · split <;> simp [toText, *]

end Operator

/-! ## Nodes -/

/-- A variable of a step's environment with its value. -/
structure Setting where
  key : String
  value : String
deriving DecidableEq, Repr, Inhabited

/-- The memory, in gigabytes, of a step that does not say how much it needs. -/
def defaultMemory : Nat := 4

/-- What a node says about the step that it stands for. -/
structure Attributes where
  label : Option String := none
  filename : Option String := none
  runtimeEnvironment : String := ""
  environmentYaml : String := ""
  cpu : Option Nat := none
  /-- In gigabytes. -/
  memory : Option Nat := some defaultMemory
  dependencies : List String := []
  outputs : List String := []
  settings : List Setting := []
deriving DecidableEq, Repr

namespace Attributes

instance : Inhabited Attributes := ⟨{}⟩

/-- The files that the step reads: its dependencies without the blank ones. -/
def inputFiles (a : Attributes) : List String :=
  a.dependencies.filter fun f => !Text.isBlank f

/-- The files that the step writes: its outputs without the blank ones. -/
def outputFiles (a : Attributes) : List String :=
  a.outputs.filter fun f => !Text.isBlank f

/-- The file that the step runs, unless its name is blank. -/
def sourceFile? (a : Attributes) : Option String :=
  Text.filledIn a.filename

/-- The number of bytes above which an inline environment is taken as one. -/
def environmentYamlLimit : Nat := 10

/-- The step comes with an environment of its own. -/
def hasEnvironmentYaml (a : Attributes) : Bool :=
  environmentYamlLimit < a.environmentYaml.utf8ByteSize

end Attributes

/-- A node of a pipeline. -/
structure Node where
  id : String
  kind : NodeKind := .unspecified
  operator : Option Operator := none
  attributes : Attributes := {}
  inputs : List LinkGroup := []
deriving DecidableEq, Repr, Inhabited

namespace Node

/-- The node is a step of the workflow. -/
def isExecution (n : Node) : Bool :=
  n.kind = .execution

/-- The links of a node, group after group. -/
def links (n : Node) : List Link :=
  n.inputs.flatMap LinkGroup.links

end Node

/-- A pipeline. -/
structure Pipeline where
  id : String := ""
  nodes : List Node := []
deriving DecidableEq, Repr, Inhabited

/-- A pipeline document. -/
structure Document where
  pipelines : List Pipeline := []
deriving DecidableEq, Repr, Inhabited

namespace Document

/-- The nodes of all pipelines, in the order in which they stand. -/
def nodes (d : Document) : List Node :=
  d.pipelines.flatMap Pipeline.nodes

end Document

end Pipewright
