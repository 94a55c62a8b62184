import Pipewright.Step.Name

/-!
# Where the inputs of a step come from

Each input file of a step is looked for among the outputs of the steps that data flows from.  If
one of them writes a file of that name, the input is wired to that output; otherwise it is read
from the file system.  When several outputs have the name, the first one is taken, or none, as
the policy says.

* `BindingPolicy`: what happens with several outputs of one name.
* `Producer`, `producersOf`: the outputs with a given name.
* `Binding`, `bindInputs`: the inputs of a step with their sources.
* `Binding.statement`: how an input is declared in the workflow.
-/

namespace Pipewright

/-! ## Policies -/

/-- What is done about an input that several outputs could be. -/
inductive BindingPolicy where
  /-- The first output is taken. -/
  | firstMatch
  /-- It is an error. -/
  | strict
deriving DecidableEq, Repr, Inhabited

/-- The policy that a word names. -/
def BindingPolicy.ofText (word : String) : Except Error BindingPolicy :=
  if word = "first-match" then .ok .firstMatch
  else if word = "strict" then .ok .strict
  else .error (.unknownChoice "binding policy" word ["first-match", "strict"])

/-! ## Producers -/

/-- A step that data flows from: its name and the files that it writes. -/
structure Supplier where
  node : String
  name : StepName
  outputs : List String
deriving DecidableEq, Repr

/-- The step of a node, as a place that data flows from. -/
def Supplier.of (node : Node) (name : StepName) : Supplier :=
  ⟨node.id, name, node.attributes.outputFiles⟩

/-- An output of a process, counted from one. -/
structure Producer where
  process : String
  output : Nat
deriving DecidableEq, Repr

/-- How messages and listings name an output. -/
def Producer.text (p : Producer) : String :=
  p.process ++ ".output" ++ Text.decimal p.output

/-- The outputs of a step that have a name. -/
def Supplier.producersOf (u : Supplier) (filename : String) : List Producer :=
  (u.outputs.zipIdx 1).filterMap fun (output, i) =>
    if output = filename then some ⟨u.name.label, i⟩ else none

/-- The outputs that have a name, step by step and output by output. -/
def producersOf (filename : String) (suppliers : List Supplier) : List Producer :=
  suppliers.flatMap fun u => u.producersOf filename

/-! ## Bindings -/

/-- Where an input comes from. -/
inductive Source where
  /-- The results of an output of another process. -/
  | wired (producer : Producer)
  /-- Files of the file system. -/
  | raw
deriving DecidableEq, Repr

/-- An input of a step, counted from one, with its source. -/
structure Binding where
  position : Nat
  filename : String
  source : Source
deriving DecidableEq, Repr

namespace Binding

/-- The input is wired to an output. -/
def isWired (b : Binding) : Bool :=
  b.source ≠ .raw

/-- The variable that carries the input. -/
def channel (b : Binding) (name : StepName) : String :=
  name.text ++ "_channel_input" ++ Text.decimal b.position

/-- The parameter that holds the file name of the input. -/
def param (b : Binding) (name : StepName) : String :=
  name.text ++ "_input" ++ Text.decimal b.position

/-- The declaration of the variable that carries the input. -/
def statement (b : Binding) (name : StepName) : String :=
  match b.source with
  | .wired p =>
    b.channel name ++ "=" ++ p.process ++ ".out.output" ++ Text.decimal p.output ++ ".collect()"
  | .raw => b.channel name ++ "=Channel.fromPath(params." ++ b.param name ++ ").toSortedList()"

end Binding

/-- The source of an input, given the outputs that have its name. -/
def Source.ofProducers : List Producer → Source
  | [] => .raw
  | p :: _ => .wired p

/-- The binding of an input. -/
def bindInput (node : Node) (name : StepName) (suppliers : List Supplier) (policy : BindingPolicy)
    (position : Nat) (filename : String) : Except Error Binding :=
  let producers := producersOf filename suppliers
  if policy = .strict ∧ 1 < producers.length then
    .error (.ambiguousBinding node.id name.text filename (producers.map Producer.text))
  else .ok ⟨position, filename, .ofProducers producers⟩

/-- The bindings of the inputs of a step, in the order of its dependencies. -/
def bindInputs (node : Node) (name : StepName) (suppliers : List Supplier)
    (policy : BindingPolicy) : Except Error (List Binding) :=
  (node.attributes.inputFiles.zipIdx 1).mapM fun (filename, i) =>
    bindInput node name suppliers policy i filename

end Pipewright
