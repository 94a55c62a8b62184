import Pipewright.Plan

/-!
# Diagnostics

Seven rules look at the graph of a document before anything is generated from it.  They report
what would stop the generation, and what it would do although it may not be meant.

* `Severity`, `Diagnostic`: what a rule reports.
* `Rule`, `Rule.apply`: the rules.
* `Graph.diagnostics`, `Graph.validate`: all reports, and failing when some are errors.
-/

namespace Pipewright

/-- How serious a report is. -/
inductive Severity where
  | error
  | warning
  | info
deriving DecidableEq, Repr

/-- The word of a severity. -/
def Severity.toText : Severity → String
  | error => "error"
  | warning => "warning"
  | info => "info"

/-- The rules, in the order in which they report. -/
inductive Rule where
  /-- Every link leads to a node. -/
  | danglingReference
  /-- The links do not lead in a circle. -/
  | executionOrder
  /-- Every execution node has an operator that a step can be made of. -/
  | supportedOperator
  /-- Every execution node names a file. -/
  | filenamePresent
  /-- No two execution nodes have the same name. -/
  | nameCollision
  /-- No input could come from several outputs. -/
  | ambiguousOutput
  /-- Every execution node has an environment. -/
  | runtimePresent
deriving DecidableEq, Repr

namespace Rule

/-- All rules. -/
def all : List Rule :=
  [danglingReference, executionOrder, supportedOperator, filenamePresent, nameCollision,
    ambiguousOutput, runtimePresent]

/-- The name of a rule. -/
def toText : Rule → String
  | danglingReference => "dangling_reference"
  | executionOrder => "execution_order"
  | supportedOperator => "supported_operator"
  | filenamePresent => "filename_present"
  | nameCollision => "name_collision"
  | ambiguousOutput => "ambiguous_output"
  | runtimePresent => "runtime_present"

end Rule

/-- A report of a rule, about a node if there is one to blame, with a way to mend it if there is
one to tell. -/
structure Diagnostic where
  rule : Rule
  severity : Severity
  message : String
  node : Option String
  fix : Option String
deriving DecidableEq, Repr

/-! ## The rules -/

namespace Graph

variable (g : Graph)

/-- The report about a link that leads nowhere. -/
def danglingReport (node : Node) (link : Link) : Diagnostic where
  rule := .danglingReference
  severity := .error
  message := (Error.danglingReference node.id link.target).message
  node := some node.id
  fix := some "Remove the link or restore the missing node"

/-- Reports every link that leads to no node. -/
def danglingReferences : List Diagnostic :=
  g.nodes.flatMap fun node =>
    (node.links.filter fun l => (g.node? l.target).isNone).map (danglingReport node)

/-- Reports the circle that stops the search for the execution order. -/
def orderFaults : List Diagnostic :=
  match g.executionOrder with
  | .error (.cyclicGraph node path) => [{
      rule := .executionOrder
      severity := .error
      message := "Pipeline contains a cycle: " ++ String.intercalate " -> " path
      node := some node
      fix := some "Remove one of the links on the cycle" }]
  | _ => []

/-- The report about the operator of a node. -/
def operatorReport? (node : Node) : Option Diagnostic :=
  match node.operator with
  | some (.unknown word) => some {
      rule := .supportedOperator
      severity := .error
      message := "Node '" ++ node.id ++ "' uses unsupported operator '" ++ word ++ "'"
      node := some node.id
      fix := some "Use one of python-node, r-node, notebook-node" }
  | none => some {
      rule := .supportedOperator
      severity := .warning
      message := "Node '" ++ node.id ++ "' has no operator and will be skipped"
      node := some node.id
      fix := none }
  | some _ => none

/-- Reports operators that no step can be made of, and missing ones. -/
def unsupportedOperators : List Diagnostic :=
  g.executionNodes.filterMap operatorReport?

/-- The report about a node without a file. -/
def filenameReport (node : Node) : Diagnostic where
  rule := .filenamePresent
  severity := .error
  message := "Node '" ++ node.id ++ "' has no filename"
  node := some node.id
  fix := some "Set app_data.filename to the script or notebook to run"

/-- Reports execution nodes without a file. -/
def missingFilenames : List Diagnostic :=
  (g.executionNodes.filter fun n => n.attributes.sourceFile?.isNone).map filenameReport

/-- The execution nodes of each name, in the order of the names. -/
def nodesByName : List (String × List Node) :=
  g.executionNodes.foldl (fun groups node =>
    match StepName.of node with
    | .error _ => groups
    | .ok name => putKey groups name.text ((groups.lookup name.text).getD [] ++ [node])) []

/-- The report about nodes of one name. -/
def collisionReport? : String × List Node → Option Diagnostic
  | (name, first :: second :: rest) => some {
      rule := .nameCollision
      severity := .warning
      message := "Nodes " ++ String.intercalate ", " ((first :: second :: rest).map Node.id) ++
        " all resolve to the name '" ++ name ++ "'"
      node := some first.id
      fix := some "Give the nodes distinct labels" }
  | _ => none

/-- Reports names that several execution nodes have. -/
def nameCollisions : List Diagnostic :=
  g.nodesByName.filterMap collisionReport?

/-- The report about an input that several outputs could be. -/
def ambiguityReport? (node : Node) (suppliers : List Supplier) (filename : String) :
    Option Diagnostic :=
  let producers := producersOf filename suppliers
  if 1 < producers.length then some {
    rule := .ambiguousOutput
    severity := .warning
    message := "Input '" ++ filename ++ "' of node '" ++ node.id ++ "' is produced by " ++
      String.intercalate ", " (producers.map Producer.text) ++ "; the first is used"
    node := some node.id
    fix := none }
  else none

/-- The nodes that data flows from, as steps, be they steps of the workflow or not. -/
def namedSuppliers (nodes : List Node) : List Supplier :=
  nodes.filterMap fun u => (StepName.of u).toOption.map (Supplier.of u)

/-- Reports inputs of a node that several outputs could be. -/
def ambiguitiesOf (node : Node) : List Diagnostic :=
  match g.dataSources node with
  | .error _ => []
  | .ok nodes => node.attributes.inputFiles.filterMap (ambiguityReport? node (namedSuppliers nodes))

/-- Reports inputs that several outputs could be. -/
def ambiguousOutputs : List Diagnostic :=
  g.executionNodes.flatMap g.ambiguitiesOf

/-- The report about a node without an environment. -/
def runtimeReport (node : Node) : Diagnostic where
  rule := .runtimePresent
  severity := .warning
  message := "Node '" ++ node.id ++ "' has neither a runtime environment nor an environment YAML"
  node := some node.id
  fix := some "Set app_data.runtime_environment or app_data.environment_yaml"

/-- Reports execution nodes without an environment. -/
def missingRuntimes : List Diagnostic :=
  (g.executionNodes.filter fun n =>
    Text.isBlank n.attributes.runtimeEnvironment && !n.attributes.hasEnvironmentYaml).map
      runtimeReport

end Graph

/-- What a rule reports about a graph. -/
def Rule.apply (g : Graph) : Rule → List Diagnostic
  | danglingReference => g.danglingReferences
  | executionOrder => g.orderFaults
  | supportedOperator => g.unsupportedOperators
  | filenamePresent => g.missingFilenames
  | nameCollision => g.nameCollisions
  | ambiguousOutput => g.ambiguousOutputs
  | runtimePresent => g.missingRuntimes

namespace Graph

/-- What all rules report, rule after rule. -/
def diagnostics (g : Graph) : List Diagnostic :=
  Rule.all.flatMap (Rule.apply g)

/-- The messages of the reports that are errors. -/
def errorMessages (ds : List Diagnostic) : List String :=
  (ds.filter fun d => d.severity = .error).map Diagnostic.message

/-- What all rules report, unless some of it is an error. -/
def validate (g : Graph) : Except Error (List Diagnostic) :=
  let ds := g.diagnostics
  if (errorMessages ds).isEmpty then .ok ds else .error (.validation (errorMessages ds))

end Graph

end Pipewright
