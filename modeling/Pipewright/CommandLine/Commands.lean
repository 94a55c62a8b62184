import Pipewright.CommandLine.Program
import Pipewright.Shell.Program

/-!
# Outside commands that are scripts

The program can be run where the outside commands are shell scripts that lie on its disk.  What it
does depends on such surroundings through their launcher alone.

* `Facilities.ofSurroundings`: the facilities in given surroundings.
-/

namespace Pipewright

/-- The facilities in given surroundings. -/
def Facilities.ofSurroundings (s : Surroundings) (home : Option Path) (clock : Nat → String)
    (freshId : String) : Facilities :=
  .ofLauncher s.execute home clock freshId

end Pipewright
