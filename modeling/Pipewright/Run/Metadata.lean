import Pipewright.Document.Format
import Pipewright.Error

/-!
# The state of a run

A run goes through a few states, and after each change its state is kept beside the project, as a
JSON object with the times of the start and of the last change.

* `RunStatus`: the states, with their words.
* `RunMetadata`: what is kept of a run.
* `RunMetadata.transition`, `RunMetadata.fail`: the changes.
-/

namespace Pipewright

open Json

/-- The states of a run. -/
inductive RunStatus where
  | prepare
  | prepareSuccess
  | prepareFailure
  | running
  | runSuccess
  | runError
deriving DecidableEq, Repr, Inhabited

namespace RunStatus

/-- All states. -/
def all : List RunStatus :=
  [prepare, prepareSuccess, prepareFailure, running, runSuccess, runError]

/-- The word of a state. -/
def toText : RunStatus → String
  | prepare => "prepare"
  | prepareSuccess => "prepare_success"
  | prepareFailure => "prepare_failure"
  | running => "running"
  | runSuccess => "run_success"
  | runError => "run_error"

/-- No change is expected after the state. -/
def isFinal : RunStatus → Bool
  | prepareFailure | runSuccess | runError => true
  | prepare | prepareSuccess | running => false

/-- States are read from their words. -/
def decoder : Decoder RunStatus :=
  .word (all.map fun s => (s.toText, s))

end RunStatus

/-- What is kept of a run. -/
structure RunMetadata where
  id : String
  startTime : String
  /-- The time of the last change. -/
  changeTime : String
  status : RunStatus
  errorMessage : String
  logMessage : String
deriving DecidableEq, Repr, Inhabited

namespace RunMetadata

/-- A run that starts at a time. -/
def start (id time : String) : RunMetadata where
  id := id
  startTime := time
  changeTime := time
  status := .prepare
  errorMessage := ""
  logMessage := ""

/-- The run in another state from a time on. -/
def transition (m : RunMetadata) (status : RunStatus) (time : String) : RunMetadata :=
  { m with status := status, changeTime := time }

/-- The run in another state from a time on, for a reason. -/
def fail (m : RunMetadata) (status : RunStatus) (message time : String) : RunMetadata :=
  { m.transition status time with errorMessage := message }

/-- Runs are records in which every field is required. -/
def decoder : Decoder RunMetadata := .record
  { name := "RunMetadata"
    blank := default
    fields := [
      { name := "run_id", required := true
        decoder := Decoder.text.sets fun x m => { m with id := x } },
      { name := "start_time", required := true
        decoder := Decoder.text.sets fun x m => { m with startTime := x } },
      { name := "server_time", required := true
        decoder := Decoder.text.sets fun x m => { m with changeTime := x } },
      { name := "status", required := true
        decoder := RunStatus.decoder.sets fun x m => { m with status := x } },
      { name := "error_message", required := true
        decoder := Decoder.text.sets fun x m => { m with errorMessage := x } },
      { name := "log_message", required := true
        decoder := Decoder.text.sets fun x m => { m with logMessage := x } }] }

/-- The object of a run. -/
def toValue (m : RunMetadata) : Value := .object [
  ("run_id", .string m.id),
  ("start_time", .string m.startTime),
  ("server_time", .string m.changeTime),
  ("status", .string m.status.toText),
  ("error_message", .string m.errorMessage),
  ("log_message", .string m.logMessage)]

/-- The run that a text tells of. -/
def parse (text : String) : Except Error RunMetadata :=
  (decoder.parse text).mapError Error.json

end RunMetadata

end Pipewright
