import Pipewright.Command
import Pipewright.Document.Format

/-!
# Run requests

A request to run a pipeline tells where the document is and where the project goes.  Whatever else
it tells is kept, so that it can be written as it was received.

* `RunRequest`: the requests.
* `RunRequest.load`: reading one.
* `RunRequest.toValue`: writing it.
-/

namespace Pipewright

open Json

/-- A request to run a pipeline. -/
structure RunRequest where
  id : String
  /-- The output directory, taken from the home directory. -/
  workingDirectory : String
  /-- The document, taken from the home directory. -/
  pipelinePath : String
  name : Option String := none
  description : Option String := none
  pipelineName : Option String := none
  pipelineRevision : Option String := none
  status : Option String := none
  createdAt : Option Value := none
  /-- What else the request tells, in the order of the keys. -/
  extra : List (String × Value) := []
deriving Repr, BEq

instance : Inhabited RunRequest := ⟨⟨"", "", "", none, none, none, none, none, none, []⟩⟩

namespace RunRequest

/-- Requests are records with three required fields.  They are read from objects only. -/
def decoder : Decoder RunRequest := .record
  { name := "RunConfig"
    blank := default
    fields := [
      { name := "run_id", required := true
        decoder := Decoder.text.sets fun x r => { r with id := x } },
      { name := "working_dir", required := true
        decoder := Decoder.text.sets fun x r => { r with workingDirectory := x } },
      { name := "pipeline_path", required := true
        decoder := Decoder.text.sets fun x r => { r with pipelinePath := x } },
      { name := "run_name"
        decoder := Decoder.text.optional.sets fun x r => { r with name := x } },
      { name := "description"
        decoder := Decoder.text.optional.sets fun x r => { r with description := x } },
      { name := "pipeline_name"
        decoder := Decoder.text.optional.sets fun x r => { r with pipelineName := x } },
      { name := "pipeline_rev"
        decoder := Decoder.text.optional.sets fun x r => { r with pipelineRevision := x } },
      { name := "status"
        decoder := Decoder.text.optional.sets fun x r => { r with status := x } },
      { name := "created_at"
        decoder := Decoder.value.optional.sets fun x r => { r with createdAt := x } }]
    other := some fun key =>
      Decoder.value.sets fun x r => { r with extra := putKey r.extra key x } }

/-- A member for a value that is there. -/
def memberOf (key : String) (v : Option Value) : List (String × Value) :=
  (v.map fun w => (key, w)).toList

/-- The members of a request: the known ones, and then the others. -/
def members (r : RunRequest) : List (String × Value) :=
  [("run_id", .string r.id), ("working_dir", .string r.workingDirectory),
    ("pipeline_path", .string r.pipelinePath)] ++
  memberOf "run_name" (r.name.map .string) ++
  memberOf "description" (r.description.map .string) ++
  memberOf "pipeline_name" (r.pipelineName.map .string) ++
  memberOf "pipeline_rev" (r.pipelineRevision.map .string) ++
  memberOf "status" (r.status.map .string) ++
  memberOf "created_at" r.createdAt ++
  r.extra

/-- The object of a request, the known members first. -/
def toValue (r : RunRequest) : Value :=
  .object r.members

/-- The object of a request with its members in the order of the keys. -/
def toSortedValue (r : RunRequest) : Value :=
  .object (sortKeys r.members)

/-- The request at a path. -/
def load (p : Path) (d : Disk) : Except Error RunRequest := do
  let text ← (d.readText p).mapError Error.disk
  (decoder.parse text).mapError fun e => Error.document (.badRequest p e)

/-- The directory that the project goes to. -/
def outputDirectory (r : RunRequest) (home : Path) : Path :=
  home.join r.workingDirectory

/-- The document of the pipeline. -/
def pipelineFile (r : RunRequest) (home : Path) : Path :=
  home.join r.pipelinePath

end RunRequest

end Pipewright
