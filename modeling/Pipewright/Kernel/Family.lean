import Pipewright.Error

/-!
# Kernel families

A notebook runs on a kernel of one of two families.  Which family is asked for depends on the
language that the notebook declares and on a mapping, which may swap the two.

* `KernelFamily`, `KernelFamily.ofHint`: the families and the hints that name them.
* `KernelFamily.isInterpreter`: the programs that belong to a family.
* `KernelMapping`, `KernelMapping.family`: from languages to families.
-/

namespace Pipewright

/-- A family of kernels. -/
inductive KernelFamily where
  | python
  | r
deriving DecidableEq, Repr, Inhabited

namespace KernelFamily

/-- The word of a family. -/
def toText : KernelFamily → String
  | python => "python"
  | r => "r"

/-- The family that a hint names.  Any hint with `python` in it names that family; only the hint
`r` names the other one. -/
def ofHint (hint : String) : Except Error KernelFamily :=
  if Text.occursIn "python" hint then .ok python
  else if hint = "r" then .ok r
  else .error (.unsupportedLanguage hint)

/-- What the path of a program of the family has in it. -/
def interpreterMark : KernelFamily → String
  | python => "/bin/python"
  | r => "lib/R/bin/R"

/-- The program at a path belongs to the family. -/
def isInterpreter (family : KernelFamily) (executable : String) : Bool :=
  Text.occursIn family.interpreterMark executable

/-- The other family. -/
def other : KernelFamily → KernelFamily
  | python => r
  | r => python

end KernelFamily

/-- How the family of a kernel follows from the language of a notebook. -/
inductive KernelMapping where
  /-- Each language asks for the family of the other one. -/
  | inverted
  /-- Each language asks for its own family. -/
  | direct
deriving DecidableEq, Repr, Inhabited

namespace KernelMapping

/-- The mapping that a word names. -/
def ofText (word : String) : Except Error KernelMapping :=
  if word = "inverted" then .ok inverted
  else if word = "direct" then .ok direct
  else .error (.unknownChoice "kernel mapping" word ["inverted", "direct"])

/-- What a mapping does to the family of a language. -/
def apply : KernelMapping → KernelFamily → KernelFamily
  | inverted, family => family.other
  | direct, family => family

/-- A text with its ASCII letters in lower case. -/
def lowered (s : String) : String :=
  String.ofList (s.toList.map Char.toLower)

/-- The family to ask for when a notebook declares a language. -/
def family (m : KernelMapping) (language : String) : Except Error KernelFamily :=
  match KernelFamily.ofHint (lowered language) with
  | .ok declared => .ok (m.apply declared)
  | .error _ => .error (.unsupportedLanguage language)

end KernelMapping

end Pipewright
