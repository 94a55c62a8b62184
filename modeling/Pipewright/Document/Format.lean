import Pipewright.Document.Basic
import Pipewright.Json.Decoder

/-!
# The JSON form of pipeline documents

A document is read leniently: most keys may be absent or null, two have an older name, the value
of a setting may be any scalar, and other keys are skipped.  It is written with every key present
and in the order of the fields, an absent value as null.

* `Setting.decoder`, `Link.decoder`, …, `Document.decoder`: reading.
* `Setting.toValue`, `Link.toValue`, …, `Document.toValue`: writing.
-/

namespace Pipewright

open Json

/-! ## Reading -/

/-- A text, or null for the empty one. -/
def lenientText : Decoder String :=
  Decoder.text.orBlank

/-- The text of a scalar that is the value of a setting. -/
def scalarText? : Value → Except Issue String
  | .null => .ok ""
  | .string s => .ok s
  | .number n => .ok (numberText n)
  | .bool b => .ok (if b then "true" else "false")
  | v => .error (.notScalar v)

/-- The value of a setting: any scalar, as text. -/
def scalarText : Decoder String where
  read depth := do
    match scalarText? (← Decoder.value.read depth) with
    | .ok s => return s
    | .error issue => Reader.failOpen issue
  ofValue := scalarText?

/-- Settings are records of a key and a value. -/
def Setting.decoder : Decoder Setting := .record
  { name := "EnvVar"
    blank := ⟨"", ""⟩
    fields := [
      { name := "key", aliases := ["env_var"], required := true
        decoder := Decoder.text.sets fun x s => { s with key := x } },
      { name := "value"
        decoder := scalarText.sets fun x s => { s with value := x } }] }

/-- Links are records of a node id and an outlet. -/
def Link.decoder : Decoder Link := .record
  { name := "LinkDef"
    blank := ⟨"", none⟩
    fields := [
      { name := "node_id_ref", required := true
        decoder := Decoder.text.sets fun x l => { l with target := x } },
      { name := "port_id_ref"
        decoder := Decoder.text.optional.sets fun x l => { l with outlet := x } }] }

/-- Link groups are records of an id and links. -/
def LinkGroup.decoder : Decoder LinkGroup := .record
  { name := "LinkGroup"
    blank := ⟨none, []⟩
    fields := [
      { name := "id"
        decoder := Decoder.text.optional.sets fun x g => { g with id := x } },
      { name := "links"
        decoder := Link.decoder.list.orBlank.sets fun x g => { g with links := x } }] }

/-- Attributes are records without required fields.  An absent memory is the default one; a
memory of null is none. -/
def Attributes.decoder : Decoder Attributes := .record
  { name := "AppData"
    blank := {}
    fields := [
      { name := "label"
        decoder := Decoder.text.optional.sets fun x a => { a with label := x } },
      { name := "filename"
        decoder := Decoder.text.optional.sets fun x a => { a with filename := x } },
      { name := "runtime_environment"
        decoder := lenientText.sets fun x a => { a with runtimeEnvironment := x } },
      { name := "environment_yaml"
        decoder := lenientText.sets fun x a => { a with environmentYaml := x } },
      { name := "cpu"
        decoder := Decoder.count.optional.sets fun x a => { a with cpu := x } },
      { name := "memory"
        decoder := Decoder.count.optional.sets fun x a => { a with memory := x } },
      { name := "dependencies"
        decoder := Decoder.text.list.orBlank.sets fun x a => { a with dependencies := x } },
      { name := "outputs", aliases := ["output"]
        decoder := Decoder.text.list.orBlank.sets fun x a => { a with outputs := x } },
      { name := "env_vars"
        decoder := Setting.decoder.list.orBlank.sets fun x a => { a with settings := x } }] }

/-- Nodes are records that need an id. -/
def Node.decoder : Decoder Node := .record
  { name := "NodeDef"
    blank := { id := "" }
    fields := [
      { name := "id", required := true
        decoder := Decoder.text.sets fun x n => { n with id := x } },
      { name := "type"
        decoder := (lenientText.map NodeKind.ofText).sets fun x n => { n with kind := x } },
      { name := "op"
        decoder :=
          (Decoder.text.map Operator.ofText).optional.sets fun x n => { n with operator := x } },
      { name := "app_data"
        decoder := Attributes.decoder.orBlank.sets fun x n => { n with attributes := x } },
      { name := "inputs"
        decoder := LinkGroup.decoder.list.orBlank.sets fun x n => { n with inputs := x } }] }

/-- Pipelines are records of an id and nodes. -/
def Pipeline.decoder : Decoder Pipeline := .record
  { name := "PipelineDef"
    blank := {}
    fields := [
      { name := "id"
        decoder := lenientText.sets fun x p => { p with id := x } },
      { name := "nodes"
        decoder := Node.decoder.list.orBlank.sets fun x p => { p with nodes := x } }] }

/-- Documents are records of pipelines. -/
def Document.decoder : Decoder Document := .record
  { name := "PipelineDocument"
    blank := {}
    fields := [
      { name := "pipelines"
        decoder := Pipeline.decoder.list.orBlank.sets fun x d => { d with pipelines := x } }] }

/-! ## Writing -/

/-- A value or null. -/
def optionalValue {α : Type} (toValue : α → Value) : Option α → Value
  | none => .null
  | some a => toValue a

/-- The values of a list as an array. -/
def listValue {α : Type} (toValue : α → Value) (as : List α) : Value :=
  .array (as.map toValue)

/-- A natural number as a value. -/
def countValue (n : Nat) : Value := .number (.natural n)

/-- The object of a setting. -/
def Setting.toValue (s : Setting) : Value := .object [
  ("key", .string s.key),
  ("value", .string s.value)]

/-- The object of a link. -/
def Link.toValue (l : Link) : Value := .object [
  ("node_id_ref", .string l.target),
  ("port_id_ref", optionalValue .string l.outlet)]

/-- The object of a link group. -/
def LinkGroup.toValue (g : LinkGroup) : Value := .object [
  ("id", optionalValue .string g.id),
  ("links", listValue Link.toValue g.links)]

/-- The object of attributes. -/
def Attributes.toValue (a : Attributes) : Value := .object [
  ("label", optionalValue .string a.label),
  ("filename", optionalValue .string a.filename),
  ("runtime_environment", .string a.runtimeEnvironment),
  ("environment_yaml", .string a.environmentYaml),
  ("cpu", optionalValue countValue a.cpu),
  ("memory", optionalValue countValue a.memory),
  ("dependencies", listValue .string a.dependencies),
  ("outputs", listValue .string a.outputs),
  ("env_vars", listValue Setting.toValue a.settings)]

/-- The object of a node. -/
def Node.toValue (n : Node) : Value := .object [
  ("id", .string n.id),
  ("type", .string n.kind.toText),
  ("op", optionalValue (fun o => .string o.toText) n.operator),
  ("app_data", n.attributes.toValue),
  ("inputs", listValue LinkGroup.toValue n.inputs)]

/-- The object of a pipeline. -/
def Pipeline.toValue (p : Pipeline) : Value := .object [
  ("id", .string p.id),
  ("nodes", listValue Node.toValue p.nodes)]

/-- The object of a document. -/
def Document.toValue (d : Document) : Value := .object [
  ("pipelines", listValue Pipeline.toValue d.pipelines)]

end Pipewright
