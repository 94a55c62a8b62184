import Pipewright.Command
import Pipewright.Run.Metadata

/-!
# Checkpoints

The state of a run is kept in a file of the output directory.

* `saveCheckpoint`: writing the file.
* `loadCheckpoint`: reading it, if there is one.
-/

namespace Pipewright

/-- The file that keeps the state of a run. -/
def checkpointFile : String := "run.json"

/-- Keeps the state of a run in a directory, which is made if need be. -/
def saveCheckpoint (m : RunMetadata) (directory : Path) : Act Host Path := do
  Host.files (DiskAct.makeDirectories directory)
  Host.change fun d => d.writeText (directory.join checkpointFile) m.toValue.pretty
  return directory.join checkpointFile

/-- The state of a run that a directory keeps, if it keeps one. -/
def loadCheckpoint (directory : Path) (d : Disk) : Except Error (Option RunMetadata) := do
  let path := directory.join checkpointFile
  if ← (d.tryExists path).mapError Error.disk then
    let text ← (d.readText path).mapError Error.disk
    return some (← RunMetadata.parse text)
  else return none

end Pipewright
