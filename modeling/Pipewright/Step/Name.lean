import Pipewright.Document.Basic
import Pipewright.Error

/-!
# Names of steps

A step is named after its label, or else after the file that it runs, with the first characters
of its node's id behind.  Of all that only the ASCII letters and digits are kept, in lower case
but for the first letter after each underscore, so a name can be a variable, a file name and, in
upper case, the label of a process.

* `camelCase`: the letters and digits of a text as one word.
* `StepName`, `StepName.of`, `StepName.label`: the name of a node's step and its process label.
-/

namespace Pipewright

/-! ## Camel case -/

/-- The characters that are not dropped from a name. -/
def isNameChar (c : Char) : Bool :=
  c.isAlphanum || c = '_'

/-- A word with its first letter in upper case. -/
def capitalize : List Char → List Char
  | [] => []
  | c :: cs => c.toUpper :: cs

/-- Words as one: the first as it is, the others with a capital. -/
def joinWords : List (List Char) → List Char
  | [] => []
  | w :: ws => w ++ ws.flatMap capitalize

/-- The ASCII letters and digits of a text as one word, in lower case but for the first letter
after each underscore. -/
def camelCase (s : String) : String :=
  let kept := (s.toList.filter isNameChar).map Char.toLower
  String.ofList (joinWords (kept.splitOn '_'))

/-! ## Names -/

/-- The last component of a path, with its extension. -/
def baseName (path : String) : String :=
  String.ofList (Text.afterLastOf '/' path.toList)

/-- The last component of a path up to its first full stop. -/
def stem (path : String) : String :=
  String.ofList ((Text.afterLastOf '/' path.toList).takeWhile (· ≠ '.'))

/-- The name of a step. -/
structure StepName where
  text : String
deriving DecidableEq, Repr, Inhabited

namespace StepName

/-- The number of characters of the id in a name. -/
def idLength : Nat := 3

/-- The first characters of an id. -/
def idStart (id : String) : String :=
  String.ofList (id.toList.take idLength)

/-- What a step is called before the id: its label, or the stem of its file. -/
def base? (a : Attributes) : Option String :=
  match Text.filledIn a.label with
  | some label => some label
  | none => a.sourceFile?.map stem

/-- The name of the step of a node, which must have a label or a file. -/
def of (node : Node) : Except Error StepName :=
  match base? node.attributes with
  | some base => .ok ⟨camelCase (base ++ "_" ++ idStart node.id)⟩
  | none => .error (.missingField node.id "filename")

/-- The label of the process of a step: its name in upper case. -/
def label (n : StepName) : String :=
  String.ofList (n.text.toList.map Char.toUpper)

end StepName

end Pipewright
