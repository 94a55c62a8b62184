import Pipewright.Run.RunRequest

/-!
# The registry of runs

All requests of a user are listed in one file below the home directory, each run once.

* `registryPath`: the file.
* `registryEntries`: the list.
* `register`: adding a request.
-/

namespace Pipewright

open Json

/-- The registry below a home directory. -/
def registryPath (home : Path) : Path := home.join ".ppdb/db.json"

/-- The entries of the text of a registry; a text that is no list has none. -/
def parseRegistry (text : String) : List Value :=
  match Decoder.value.list.parse text with
  | .ok entries => entries
  | .error _ => []

/-- The entries of a registry; one that cannot be read has none. -/
def registryEntries (home : Path) (d : Disk) : List Value :=
  match d.readText (registryPath home) with
  | .ok text => parseRegistry text
  | .error _ => []

/-- The entry is about the run with an id. -/
def isEntryOf (id : String) (entry : Value) : Bool :=
  (entry.member? "run_id").bind Value.text? = some id

/-- The directory of the registry is made when it has one. -/
def makeRegistryDirectory (home : Path) : Act Host Unit :=
  match (registryPath home).parent? with
  | some directory => Host.files (DiskAct.makeDirectories directory)
  | none => return ()

/-- Adds a request to the registry unless its run is there already.  Tells whether it has been
added. -/
def register (home : Path) (r : RunRequest) : Act Host Bool := do
  let entries := registryEntries home (← get).disk
  if entries.any (isEntryOf r.id) then return false
  makeRegistryDirectory home
  Host.change fun d =>
    d.writeText (registryPath home) (Value.array (entries ++ [r.toSortedValue])).pretty
  return true

end Pipewright
