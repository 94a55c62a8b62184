import Pipewright.Shell.Arithmetic
import Pipewright.Shell.Grammar
import Pipewright.Shell.Machine
import Pipewright.Shell.Pattern

/-!
# Expansion of shell words

Before a command is run its words are expanded: values are put in, what has been put in outside
quotes is cut into words, and words that are patterns become the names that fit them.

* `Runner`, `isolated`: running a script, and running one whose scope is its own.
* `Glyph`, `expand`: words with values put in.
* `fieldsOf`, `namesOf`: cutting, and names that fit.
* `expandWords`, `expandText`, `expandPattern`: what words become.
-/

namespace Pipewright.Shell

/-- Runs a script.  The flag tells that the code it leaves is tested, so that a failure is none. -/
abbrev Runner := Bool → Script → Run Unit

/-! ## Scripts of their own -/

/-- Does something and tells how it has ended. -/
def attempt {α : Type} (action : Run α) : Run (Except Leap α) := fun m =>
  let (result, m') := action m
  (.ok result, m')

/-- Leaves the code of a script that ends, after what it has set for its end. -/
def runEndTrap (run : Runner) (code : Nat) : Run Unit := do
  leave code
  match (← get).scope.traps.lookup 0 with
  | none => pure ()
  | some action =>
    changeScope fun s => { s with traps := s.traps.filter fun t => t.1 ≠ 0 }
    match ← attempt (run false (.parse 1 action)) with
    | .error (.exit c) => leave c
    | .error (.killed n) => throw (.killed n)
    | .error .failed => leave failureCode
    | _ => leave code

/-- The number of exit codes. -/
def codeCount : Nat := 256

/-- Runs a script to its end.  Only a signal leaps further. -/
def toEnd (run : Runner) (body : Run Unit) : Run Unit := do
  match ← attempt body with
  | .error (.exit code) => runEndTrap run code
  | .error (.killed n) => throw (.killed n)
  | .error .failed => runEndTrap run failureCode
  | _ => runEndTrap run (← get).scope.status
  leave ((← get).scope.status % codeCount)

/-- Runs a script in a scope that starts as the one around it.  Of the changes of its scope only the
code is left. -/
def isolated (run : Runner) (body : Run Unit) : Run Unit := do
  let before ← get
  changeScope fun s => { s with traps := s.traps.filter fun t => t.2.isEmpty }
  toEnd run body
  modify fun m => { m with
    scope := { before.scope with status := m.scope.status }
    disk := { m.disk with workingDirectory := before.disk.workingDirectory } }

/-- The text without the ends of lines at its end. -/
def withoutLastLines (s : String) : String :=
  String.ofList (s.toList.reverse.dropWhile (· = '\n')).reverse

/-- What a script writes. -/
def outputOf (run : Runner) (script : String) (ownLines : Bool) : Run String := do
  let before := (← get).scope
  let channel ← newBuffer []
  isolated run do
    changeScope fun s => s.connect 1 (some channel)
    run false (.parse (if ownLines then 1 else before.line) script)
  changeScope fun s => { s with status := before.status, substituted := s.status }
  let bytes := (← get).readable (some channel)
  return withoutLastLines (Text.fromBytesLossy (bytes.filter (· ≠ 0)))

/-! ## Values -/

/-- Where a character of a word comes from. -/
inductive Origin where
  /-- It stands between quotes, and stands for itself. -/
  | quoted
  /-- It stands in the script. -/
  | plain
  /-- It has been put in outside quotes. -/
  | found
deriving DecidableEq, Repr

/-- A piece of a word. -/
inductive Glyph where
  | char (c : Char) (origin : Origin)
  /-- One word ends here and another one starts. -/
  | gap
  /-- There is a word, even if it has no characters. -/
  | anchor
deriving DecidableEq, Repr

/-- A text as pieces. -/
def glyphs (origin : Origin) (s : String) : List Glyph :=
  s.toList.map fun c => .char c origin

/-- A value as pieces. -/
def valueGlyphs (quoted : Bool) (s : String) : List Glyph :=
  if quoted then .anchor :: glyphs .quoted s else glyphs .found s

/-- A piece outside quotes that is put in with what is around it. -/
def Glyph.putIn : Glyph → Glyph
  | char c .plain => char c .found
  | g => g

/-- The text that pieces make. -/
def glyphText (gs : List Glyph) : String :=
  String.ofList (gs.filterMap fun
    | .char c _ => some c
    | .gap => some ' '
    | .anchor => none)

/-- The pattern that pieces make. -/
def glyphPattern (gs : List Glyph) : Pattern :=
  Pattern.ofMarked (gs.filterMap fun
    | .char c origin => some (c, origin = .quoted)
    | .gap => some (' ', true)
    | .anchor => none)

/-- The value of a parameter as pieces. -/
def Scope.parameterGlyphs (s : Scope) (name : String) (quoted : Bool) : List Glyph :=
  if name = "@" || (name = "*" && !quoted) then
    (List.intersperse [Glyph.gap] (s.arguments.map (valueGlyphs quoted))).flatten
  else valueGlyphs quoted ((s.value? name).getD "")

/-- The parameter has no value, or none but the empty one if that counts too. -/
def Scope.isMissing (s : Scope) (name : String) (evenEmpty : Bool) : Bool :=
  match s.value? name with
  | none => true
  | some v => evenEmpty && v.isEmpty

/-- Ends the script when a parameter must have a value and has none. -/
def insist (name : String) : Run Unit := do
  let s := (← get).scope
  if s.has 'u' && (s.value? name).isNone && name ≠ "@" && name ≠ "*" then
    fail (name ++ ": parameter not set")

/-- The value of an arithmetic expression.  What it sets is set. -/
def calculated (expression : String) : Run String := do
  let s := (← get).scope
  match calculate s.value? expression with
  | .ok (n, set) =>
    set.forM fun (name, value) => assign name (Text.signedDecimal value)
    return Text.signedDecimal n
  | .error fault => fail (fault.message expression)

/-- What an alteration makes of a parameter, when `expandOperand` expands its operand where it
stands. -/
def altered (expandOperand : Place → Run (List Glyph)) (name : String) (alteration : Alteration)
    (quoted : Bool) : Run (List Glyph) := do
  let scope := (← get).scope
  let own := scope.parameterGlyphs name quoted
  let operand : Run (List Glyph) :=
    if quoted then do return .anchor :: (← expandOperand .quotedOperand)
    else do return (← expandOperand .operand).map Glyph.putIn
  match alteration with
  | .fallback evenEmpty => if scope.isMissing name evenEmpty then operand else return own
  | .replacement evenEmpty =>
    if scope.isMissing name evenEmpty then return if quoted then [.anchor] else []
    else operand
  | .assignment evenEmpty =>
    if scope.isMissing name evenEmpty then
      let text := glyphText (← operand)
      assign name text
      return valueGlyphs quoted text
    else return own
  | .demand evenEmpty =>
    if scope.isMissing name evenEmpty then
      let text := glyphText (← operand)
      let usual := "parameter not set" ++ if evenEmpty then " or null" else ""
      fail (name ++ ": " ++ if text.isEmpty then usual else text)
    else return own
  | .length =>
    insist name
    return valueGlyphs quoted (Text.decimal ((scope.value? name).getD "").length)
  | .withoutStart longest =>
    insist name
    let p := glyphPattern (← expandOperand .operand)
    let value := ((scope.value? name).getD "").toList
    return valueGlyphs quoted (String.ofList (p.withoutStart longest value))
  | .withoutEnd longest =>
    insist name
    let p := glyphPattern (← expandOperand .operand)
    let value := ((scope.value? name).getD "").toList
    return valueGlyphs quoted (String.ofList (p.withoutEnd longest value))
  | .unknown => fail "Bad substitution"

/-- The pieces that a part becomes, when `expandParts` expands the parts in it. -/
def expandPart (run : Runner) (expandParts : Word → Run (List Glyph)) : Part → Run (List Glyph)
  | .text s quoted => return if quoted then .anchor :: glyphs .quoted s else glyphs .plain s
  | .parameter name none _ quoted => do
    insist name
    return (← get).scope.parameterGlyphs name quoted
  | .parameter name (some alteration) operand quoted =>
    altered (fun place => expandParts (partsOf place operand)) name alteration quoted
  | .output script ownLines quoted => do
    return valueGlyphs quoted (← outputOf run script ownLines)
  | .value expression quoted => do
    let text := glyphText (← expandParts (partsOf .document expression))
    return valueGlyphs quoted (← calculated text)
  | .unclosed message => fail ("Syntax error: " ++ message)

/-- The pieces that parts become.  The fuel bounds how deep parts stand in each other. -/
def expandParts (run : Runner) : Nat → Word → Run (List Glyph)
  | 0, _ => return []
  | n + 1, w => do return (← w.mapM (expandPart run (expandParts run n))).flatten

/-- A bound on how deep parts stand in each other. -/
def depthBound (w : Word) : Nat :=
  w.foldl (fun bound part =>
    match part with
    | .parameter _ _ operand _ => bound + operand.length + 1
    | .value expression _ => bound + expression.length + 1
    | _ => bound) 1

/-- A word in which a tilde at the start is the home directory. -/
def withHome (home : Option String) : Word → Word
  | .text "~" false :: rest =>
    match home, rest with
    | some h, [] => [.text h true]
    | some h, .text "/" false :: more => .text h true :: .text "/" false :: more
    | _, _ => .text "~" false :: rest
  | w => w

/-- The pieces that a word becomes. -/
def expand (run : Runner) (w : Word) : Run (List Glyph) := do
  let w := withHome ((← get).scope.valueOf? "HOME") w
  expandParts run (depthBound w) w

/-! ## Cutting -/

/-- Words that are complete, the last one first, and the word that has been begun, its last
character first. -/
structure Fields where
  done : List (List MarkedChar) := []
  begun : Option (List MarkedChar) := none
  /-- A blank has ended the last word. -/
  atBlank : Bool := false

namespace Fields

/-- Goes on with the word that has been begun. -/
def extend (f : Fields) (c : MarkedChar) : Fields :=
  { f with begun := some (c :: f.begun.getD []), atBlank := false }

/-- Ends the word that has been begun. -/
def close (f : Fields) (atBlank : Bool) : Fields :=
  { done := (f.begun.map List.reverse).toList ++ f.done, begun := none, atBlank := atBlank }

/-- Goes on with a character that stands between words.  Other characters than blanks end a word
each, and a blank beside them ends none. -/
def separate (f : Fields) (c : Char) : Fields :=
  if isBlank c then
    if f.begun.isSome then f.close true else f
  else if f.begun.isSome then f.close false
  else if f.atBlank then { f with atBlank := false }
  else { f with done := [] :: f.done }

/-- Goes on with a piece. -/
def step (separators : List Char) (f : Fields) : Glyph → Fields
  | .anchor => { f with begun := some (f.begun.getD []), atBlank := false }
  | .gap => f.close false
  | .char c .quoted => f.extend (c, true)
  | .char c .plain => f.extend (c, false)
  | .char c .found => if separators.contains c then f.separate c else f.extend (c, false)

end Fields

/-- The words that pieces make. -/
def fieldsOf (separators : List Char) (gs : List Glyph) : List (List MarkedChar) :=
  ((gs.foldl (Fields.step separators) {}).close false).done.reverse

/-- The characters that stand between words. -/
def Scope.separators (s : Scope) : List Char :=
  match s.valueOf? "IFS" with
  | some ifs => ifs.toList
  | none => [' ', '\t', '\n']

/-! ## Names that fit -/

/-- The text of marked characters. -/
def markedText (cs : List MarkedChar) : String :=
  String.ofList (cs.map Prod.fst)

/-- The names in a directory that fit a pattern.  Names that start with a dot fit only patterns
that do so too. -/
def namesFitting (d : Disk) (directory : Path) (cs : List MarkedChar) : List String :=
  match d.list directory with
  | .error _ => []
  | .ok entries =>
    let dotted := (cs.head?.map Prod.fst) = some '.'
    (([".", ".."] ++ entries.map Prod.fst).filter fun name =>
      (dotted || name.toList.head? ≠ some '.') && (Pattern.ofMarked cs).fits name.toList).mergeSort

/-- The paths that go on from a path and fit patterns, name by name. -/
def pathsFitting (d : Disk) : String → List (List MarkedChar) → List String
  | soFar, [] => [soFar]
  | soFar, [last] =>
    if Pattern.isActive last then
      (namesFitting d (if soFar.isEmpty then "." else soFar) last).map (soFar ++ ·)
    else
      let p := soFar ++ markedText last
      if d.exists p then [p] else []
  | soFar, name :: rest =>
    if Pattern.isActive name then
      (namesFitting d (if soFar.isEmpty then "." else soFar) name).flatMap fun found =>
        if d.isDirectory (soFar ++ found) then pathsFitting d (soFar ++ found ++ "/") rest else []
    else pathsFitting d (soFar ++ markedText name ++ "/") rest

/-- The names that a word becomes: those that fit it, or the word itself. -/
def namesOf (s : Scope) (d : Disk) (cs : List MarkedChar) : List String :=
  if s.has 'f' || !Pattern.isActive cs then [markedText cs]
  else
    match pathsFitting d "" (cs.splitOnP fun c => c.1 = '/') with
    | [] => [markedText cs]
    | names => names

/-! ## Words -/

/-- The words that a word becomes. -/
def expandWord (run : Runner) (w : Word) : Run (List String) := do
  let gs ← expand run w
  let m ← get
  return (fieldsOf m.scope.separators gs).flatMap (namesOf m.scope m.disk)

/-- The words that words become. -/
def expandWords (run : Runner) (ws : List Word) : Run (List String) := do
  return (← ws.mapM (expandWord run)).flatten

/-- The text that a word becomes where it is not cut. -/
def expandText (run : Runner) (w : Word) : Run String := do
  return glyphText (← expand run w)

/-- The pattern that a word becomes. -/
def expandPattern (run : Runner) (w : Word) : Run Pattern := do
  return glyphPattern (← expand run w)

end Pipewright.Shell
