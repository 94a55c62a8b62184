import Pipewright.Command
import Pipewright.Json.Decoder

/-!
# Notebooks

Of a notebook only the language is looked at, which is told by its metadata if at all.

* `notebookLanguage`: the language of the notebook at a path.
-/

namespace Pipewright

open Json

/-- Where a notebook tells its language. -/
def languagePath : List String := ["metadata", "kernelspec", "language"]

/-- The language that the value of a notebook tells. -/
def languageOf? (notebook : Value) : Option String :=
  (notebook.at? languagePath).bind Value.text?

/-- The language that the text of a notebook tells. -/
def parseLanguage (text : String) : Except Error (Option String) :=
  match Decoder.value.parse text with
  | .ok v => .ok (languageOf? v)
  | .error e => .error (.json e)

/-- The language of the notebook at a path. -/
def notebookLanguage (p : Path) (d : Disk) : Except Error (Option String) :=
  match d.readText p with
  | .ok text => parseLanguage text
  | .error fault => .error (.disk fault)

end Pipewright
