import Pipewright.Disk.Files
import Pipewright.Text.Whole

/-!
# Conditions that `test` tells

A condition is a row of words: tests of texts, of numbers and of files, with words between them
that join tests.

* `testUnary`, `testBinary`: what a single test tells.
* `Condition`, `condition`: what a row of words tells, or what is wrong with it.
-/

namespace Pipewright.Shell

/-! ## Single tests -/

/-- The file at a path is not empty. -/
def hasContent (d : Disk) (p : Path) : Bool :=
  match d.entry p with
  | .ok (.file bytes _) => bytes.size ≠ 0
  | .ok (.directory _) => true
  | .error _ => false

/-- The file at a path can be run. -/
def isExecutable (d : Disk) (p : Path) : Bool :=
  match d.entry p with
  | .ok (.file _ executable) => executable
  | .ok (.directory _) => true
  | .error _ => false

/-- The tests of one operand. -/
def unaryTests : List String :=
  ["-b", "-c", "-d", "-e", "-f", "-g", "-G", "-h", "-k", "-L", "-n", "-O", "-p", "-r", "-s", "-S",
    "-t", "-u", "-w", "-x", "-z"]

/-- The tests of two operands. -/
def binaryTests : List String :=
  ["=", "!=", "<", ">", "-eq", "-ne", "-lt", "-le", "-gt", "-ge", "-nt", "-ot", "-ef"]

/-- What a test of one operand tells. -/
def testUnary (d : Disk) (op operand : String) : Bool :=
  match op with
  | "-z" => operand.isEmpty
  | "-n" => !operand.isEmpty
  | "-e" | "-r" | "-w" | "-O" | "-G" => d.exists operand
  | "-f" => d.isFile operand
  | "-d" => d.isDirectory operand
  | "-s" => hasContent d operand
  | "-x" => isExecutable d operand
  | _ => false

/-- What a test of two operands tells. -/
def testBinary (d : Disk) (left op right : String) : Except String Bool := do
  let compare (f : Int → Int → Bool) : Except String Bool := do
    return f (← number left) (← number right)
  match op with
  | "=" => return left = right
  | "!=" => return left ≠ right
  | "<" => return decide (left < right)
  | ">" => return decide (right < left)
  | "-eq" => compare (· == ·)
  | "-ne" => compare (· != ·)
  | "-lt" => compare (decide <| · < ·)
  | "-le" => compare (decide <| · ≤ ·)
  | "-gt" => compare (decide <| · > ·)
  | "-ge" => compare (decide <| · ≥ ·)
  | "-ef" => return d.samePlace left right
  | _ => return false
where
  number (s : String) : Except String Int :=
    match Text.decimalInteger? s with
    | some n => .ok n
    | none => .error ("Illegal number: " ++ s)

/-! ## Rows of words -/

/-- The words to come, and the word that has been read last. -/
structure Words where
  rest : List String
  last : String := ""

/-- A reader of conditions, which fails with what is wrong. -/
abbrev Condition := StateT Words (Except String)

/-- Reads a word. -/
def Condition.word : Condition (Option String) := do
  match (← get).rest with
  | [] => return none
  | w :: ws =>
    set (Words.mk ws w)
    return some w

/-- Reads the operand of a test. -/
def Condition.operand (op : String) : Condition String := do
  match ← word with
  | some w => return w
  | none => throw (op ++ ": argument expected")

/-- A test of one operand stands here, not a text that looks like one. -/
def startsUnary (op : String) : List String → Bool
  | [] => false
  | [_] => unaryTests.contains op
  | _ :: next :: _ => unaryTests.contains op && !binaryTests.contains next

namespace Condition

mutual

/-- Tests with `-o` between them.  Here as in what follows the fuel bounds the depth of the
search. -/
def anyOf (d : Disk) : Nat → Condition Bool
  | 0 => return false
  | n + 1 => do
    let first ← allOf d n
    match (← get).rest with
    | "-o" :: ws =>
      set (Words.mk ws "-o")
      let second ← anyOf d n
      return first || second
    | _ => return first

/-- Tests with `-a` between them. -/
def allOf (d : Disk) : Nat → Condition Bool
  | 0 => return false
  | n + 1 => do
    let first ← negated d n
    match (← get).rest with
    | "-a" :: ws =>
      set (Words.mk ws "-a")
      let second ← allOf d n
      return first && second
    | _ => return first

/-- A test, or the contrary of one. -/
def negated (d : Disk) : Nat → Condition Bool
  | 0 => return false
  | n + 1 => do
    match (← get).rest with
    | "!" :: w :: ws =>
      set (Words.mk (w :: ws) "!")
      return !(← negated d n)
    | _ => single d n

/-- A single test. -/
def single (d : Disk) : Nat → Condition Bool
  | 0 => return false
  | n + 1 => do
    match ← word with
    | none => return false
    | some w =>
      let rest := (← get).rest
      if w = "(" && !rest.isEmpty then
        let inner ← anyOf d n
        match ← word with
        | some ")" => return inner
        | _ => throw "closing paren expected"
      else if startsUnary w rest then
        let operand ← operand w
        return testUnary d w operand
      else
        match rest with
        | op :: _ =>
          if binaryTests.contains op then
            let _ ← word
            let right ← operand op
            testBinary d w op right
          else return !w.isEmpty
        | [] => return !w.isEmpty

end

end Condition

/-- What a row of words that may have any length tells. -/
def longCondition (d : Disk) (ws : List String) : Except String Bool := do
  let (b, left) ← (Condition.anyOf d (4 * ws.length + 4)).run ⟨ws, ""⟩
  if left.rest.isEmpty then return b else throw (left.last ++ ": unexpected operator")

/-- What a row of words tells, or what is wrong with it.  Three words with an operator in the
middle are a test of two operands, whatever the operands look like. -/
def condition (d : Disk) : List String → Except String Bool
  | [] => .ok false
  | [left, op, right] =>
    if binaryTests.contains op then testBinary d left op right
    else if left = "(" && right = ")" then longCondition d [op]
    else longCondition d [left, op, right]
  | ws => longCondition d ws

end Pipewright.Shell
