import Pipewright.Disk.Tree
import Pipewright.Shell.Condition
import Pipewright.Shell.Machine

/-!
# Tools

The tools that every host has, as far as scripts use them to write, to look at files and to make
and remove them.

* `Tool`, `tool?`: what a tool does with its arguments.
-/

namespace Pipewright.Shell

/-- What a tool that has been called by a name does with its arguments. -/
abbrev Tool := String → List String → Run Unit

namespace Tool

/-- Writes a message of a tool and leaves the code one. -/
def fail (name text : String) : Run Unit := do
  writeText 2 (name ++ ": " ++ text ++ "\n")
  leave 1

/-- The characters that need no quotes in the name of a file. -/
def isBare (c : Char) : Bool :=
  c.isAlphanum || 0x80 ≤ c.toNat ||
    ['%', '+', ',', '-', '.', '/', ':', '=', '@', '_', '^', '~', '#', '\x7b', '\x7d'].contains c

/-- The name of a file in a message. -/
def shown (p : Path) : String :=
  if !p.isEmpty && p.toList.all isBare then p else quote p

/-- The options at the start of arguments, letter by letter, and the other arguments. -/
def options : List String → List Char × List String
  | [] => ([], [])
  | a :: rest =>
    match a.toList with
    | ['-', '-'] => ([], rest)
    | '-' :: c :: cs =>
      let (others, operands) := options rest
      ((c :: cs) ++ others, operands)
    | _ => ([], a :: rest)

/-- Does something with each operand.  A message leaves the code one. -/
def forEach (name : String) (operands : List String) (action : String → Run (Option String)) :
    Run Unit := do
  leave 0
  operands.forM fun operand => do
    match ← action operand with
    | some text => fail name text
    | none => pure ()

/-- Changes the disk, or tells what is wrong. -/
def change (f : Disk → Except DiskFault Disk) (text : DiskFault → String) :
    Run (Option String) := fun m =>
  match f m.disk with
  | .ok d => (.ok none, { m with disk := d })
  | .error fault => (.ok (some (text fault)), m)

/-- The bytes of a file, or of what is given to a tool. -/
def input (p : Path) : Run (Except String (List UInt8)) := do
  if p = "-" then return .ok (← takeAll 0)
  match (← get).disk.readBytes p with
  | .ok bytes => return .ok bytes.toList
  | .error fault => return .error (shown p ++ ": " ++ fault.name)

/-- Does something with the bytes of each file, or with what is given to the tool. -/
def forEachInput (name : String) (operands : List String)
    (action : String → List UInt8 → Run Unit) : Run Unit :=
  forEach name (if operands.isEmpty then ["-"] else operands) fun p => do
    match ← input p with
    | .ok bytes =>
      action p bytes
      return none
    | .error text => return some text

/-! ## Writing -/

/-- Writes its arguments, with escapes only where that is asked for. -/
def echo : Tool := fun _ args => do
  let flags := args.takeWhile fun a =>
    match a.toList with
    | '-' :: c :: cs => (c :: cs).all fun f => f = 'n' || f = 'e' || f = 'E'
    | _ => false
  let letters := flags.flatMap fun a => a.toList.drop 1
  let line := String.intercalate " " (args.drop flags.length)
  let (bytes, ended) := if letters.contains 'e' then escapedBytes line else (textBytes line, false)
  write 1 (if ended || letters.contains 'n' then bytes else bytes ++ [10])
  leave 0

/-- Writes arguments in a format. -/
def printf : Tool
  | name, [] => fail name "missing operand"
  | name, format :: args => do
    let f := Shell.printf format args
    f.complaints.forM fun text => fail name text
    write 1 f.bytes
    leave (if f.complaints.isEmpty then 0 else 1)

/-- Writes files, or what is given to it. -/
def cat : Tool := fun name args =>
  forEachInput name (options args).2 fun _ bytes => write 1 bytes

/-- The first lines of bytes. -/
def firstLines : Nat → List UInt8 → List UInt8
  | 0, _ => []
  | n + 1, bytes =>
    match bytes.span (· ≠ 10) with
    | (line, b :: rest) => line ++ b :: firstLines n rest
    | (line, []) => line

/-- Writes the first lines of files, or of what is given to it. -/
def head : Tool
  | name, "-n" :: n :: files =>
    forEachInput name files fun _ bytes => write 1 (firstLines ((Text.natural? n).getD 10) bytes)
  | name, files => forEachInput name files fun _ bytes => write 1 (firstLines 10 bytes)

/-- The number of words in bytes. -/
def wordCount (bytes : List UInt8) : Nat :=
  ((bytes.splitBy fun a b => isGap a = isGap b).filter fun run => !run.any isGap).length
where
  isGap (b : UInt8) : Bool := b = 32 || (9 ≤ b && b ≤ 13)

/-- Counts the lines, words or bytes of files, or of what is given to it. -/
def wc : Tool := fun name args => do
  let (letters, files) := options args
  forEachInput name files fun p bytes => do
    let counts := [('l', bytes.count 10), ('w', wordCount bytes), ('c', bytes.length)]
    let shown := counts.filter fun c => letters.isEmpty || letters.contains c.1
    let columns := shown.map fun c => Text.decimal c.2
    let width := if columns.length = 1 then 0
      else if p = "-" then 7 else (Text.decimal bytes.length).length
    let line := columns.map fun c => String.ofList (List.replicate (width - c.length) ' ') ++ c
    writeText 1 (String.intercalate " " (line ++ if p = "-" then [] else [p]) ++ "\n")

/-- Writes the numbers from one on, or between two numbers. -/
def seq : Tool := fun name args => do
  match args.map Text.decimalInteger? with
  | [some last] => numbers 1 1 last
  | [some first, some last] => numbers first 1 last
  | [some first, some step, some last] => numbers first step last
  | _ => fail name "invalid argument"
where
  numbers (first step last : Int) : Run Unit := do
    let count := if step = 0 then 0 else ((last - first) / step + 1).toNat
    writeText 1 (String.join ((List.range count).map fun (i : Nat) =>
      Text.signedDecimal (first + step * (i : Int)) ++ "\n"))
    leave 0

/-- Writes the working directory. -/
def pwd : Tool := fun _ _ => do
  writeText 1 (Path.ofComponents true (← get).disk.workingDirectory ++ "\n")
  leave 0

/-- The path without slashes at its end. -/
def withoutSlashes (p : Path) : String :=
  String.ofList (p.toList.reverse.dropWhile (· = '/')).reverse

/-- Writes the last name of a path. -/
def basename : Tool
  | _, p :: rest => do
    let last := (Path.names p).getLast?.getD (if p.isEmpty then "" else "/")
    let ending := rest.head?.getD ""
    let cut := last ≠ ending && ending.toList.isSuffixOf last.toList
    let bare := if cut then last.toList.take (last.length - ending.length) else last.toList
    writeText 1 (String.ofList bare ++ "\n")
    leave 0
  | name, [] => fail name "missing operand"

/-- Writes the directory of a path. -/
def dirname : Tool
  | _, p :: _ => do
    let bare := (withoutSlashes p).toList
    let above := (bare.reverse.dropWhile (· ≠ '/')).reverse
    let directory := withoutSlashes (String.ofList above)
    let text := if !directory.isEmpty then directory
      else if Path.isAbsolute p then "/" else "."
    writeText 1 (text ++ "\n")
    leave 0
  | name, [] => fail name "missing operand"

/-- Writes the names in directories. -/
def ls : Tool := fun name args => do
  let d := (← get).disk
  let operands := (options args).2
  forEach name (if operands.isEmpty then ["."] else operands) fun p => do
    match d.entry p with
    | .ok (.directory cs) =>
      let names := (cs.map Prod.fst).filter fun n => n.toList.head? ≠ some '.'
      writeText 1 (String.join (names.mergeSort.map (· ++ "\n")))
      return none
    | .ok (.file ..) =>
      writeText 1 (p ++ "\n")
      return none
    | .error fault => return some ("cannot access " ++ quote p ++ ": " ++ fault.name)
  if (← get).scope.status ≠ 0 then leave 2

/-! ## Files -/

/-- Makes directories. -/
def mkdir : Tool := fun name args => do
  let (letters, operands) := options args
  forEach name operands fun p =>
    change (fun d =>
      if letters.contains 'p' then
        match DiskAct.makeDirectories p d with
        | (.ok (), d) => .ok d
        | (.error fault, _) => .error fault
      else d.makeDirectory p)
      fun fault => "cannot create directory " ++ quote p ++ ": " ++ fault.name

/-- Removes files, and directories with all that is in them where that is asked for. -/
def rm : Tool := fun name args => do
  let (letters, operands) := options args
  forEach name operands fun p => do
    match (← get).disk.found p with
    | .error .notFound =>
      return if letters.contains 'f' then none
        else some ("cannot remove " ++ quote p ++ ": " ++ DiskFault.name .notFound)
    | .error fault => return some ("cannot remove " ++ quote p ++ ": " ++ fault.name)
    | .ok (place, e) =>
      if e.isDirectory && !(letters.contains 'r' || letters.contains 'R') then
        return some ("cannot remove " ++ quote p ++ ": " ++ DiskFault.name .isDirectory)
      modify fun m => { m with disk := m.disk.erase place }
      return none

/-- Makes files that are not there. -/
def touch : Tool := fun name args =>
  forEach name (options args).2 fun p =>
    change (fun d => if d.isDirectory p then .ok d else d.append p .empty)
      fun fault => "cannot touch " ++ quote p ++ ": " ++ fault.name

/-- Tells a condition. -/
def test : Tool := fun name args => do
  match condition (← get).disk args with
  | .ok b => leave (if b then 0 else 1)
  | .error text =>
    writeText 2 (name ++ ": " ++ text ++ "\n")
    leave 2

end Tool

/-- What the tool with a name does. -/
def tool? (name : String) : Option Tool :=
  [("[", fun name args => Tool.test name args.dropLast), ("basename", Tool.basename),
    ("cat", Tool.cat), ("dirname", Tool.dirname), ("echo", Tool.echo),
    ("false", fun _ _ => leave 1), ("head", Tool.head), ("ls", Tool.ls), ("mkdir", Tool.mkdir),
    ("printf", Tool.printf), ("pwd", Tool.pwd), ("rm", Tool.rm), ("seq", Tool.seq),
    ("sleep", fun _ _ => leave 0), ("test", Tool.test), ("touch", Tool.touch),
    ("true", fun _ _ => leave 0), ("wc", Tool.wc)].lookup name

end Pipewright.Shell
