import Pipewright.Json.Issue

/-!
# Reading a text character by character

A reader stands at a place of a JSON text and either moves on with a result or stops at a fault.
A fault is settled when the place to report is known.  A fault about the shape of a whole object
or array is still open when it is found: the array or object it belongs to settles it, at the
place where its reader then stands.

* `Cursor`: a place in a text, with what is left of it.
* `Fault`, `Reader`: faults, and readers as state transformers on cursors.
* `Reader.peek?`, `Reader.advance`, `Reader.skipBlanks`: the steps all readers are made of.
* `Reader.iterate`: a round of reading, repeated until it answers.
-/

namespace Pipewright.Json

/-- A place in a text: the characters that are left, the number of bytes read, and the number of
bytes of the whole text. -/
structure Cursor where
  rest : List Char
  offset : Nat
  size : Nat
deriving Repr

/-- The number of bytes of a list of characters in UTF-8. -/
def byteCount (cs : List Char) : Nat :=
  cs.foldl (fun n c => n + c.utf8Size) 0

namespace Cursor

/-- The start of a text. -/
def start (cs : List Char) : Cursor := ⟨cs, 0, byteCount cs⟩

/-- The number of bytes left. -/
def left (c : Cursor) : Nat := c.size - c.offset

/-- The place after the next byte, or the end of the text when there is none. -/
def peekOffset (c : Cursor) : Nat := min (c.offset + 1) c.size

/-- The cursor without leading blanks: spaces, tabs, line feeds and carriage returns. -/
def skipBlanks (c : Cursor) : Cursor :=
  let blanks := c.rest.takeWhile (· ∈ [' ', '\t', '\n', '\r'])
  { c with rest := c.rest.drop blanks.length, offset := c.offset + blanks.length }

/-- The cursor after the next character. -/
def advance (c : Cursor) : Cursor :=
  match c.rest with
  | [] => c
  | x :: rest => { c with rest := rest, offset := c.offset + x.utf8Size }

/-- The cursor after the next character when that is `x`. -/
def accept? (c : Cursor) (x : Char) : Option Cursor :=
  if c.rest.head? = some x then some c.advance else none

end Cursor

/-- Why a reader stopped. -/
inductive Fault where
  /-- An issue with the number of bytes before the place to report. -/
  | settled (issue : Issue) (offset : Nat)
  /-- An issue whose place is still open, with the cursor where the reader stopped. -/
  | unsettled (issue : Issue) (stop : Cursor)
deriving Repr

/-- A reader moves a cursor on and gives a result, or stops at a fault. -/
abbrev Reader := StateT Cursor (Except Fault)

namespace Reader

variable {α σ : Type}

/-- Stops at the place after what has been read. -/
def failHere (issue : Issue) : Reader α := do
  throw (.settled issue (← get).offset)

/-- Stops at the next byte. -/
def failAtNext (issue : Issue) : Reader α := do
  throw (.settled issue (← get).peekOffset)

/-- Stops and leaves the place to report to the array or object that is being read. -/
def failOpen (issue : Issue) : Reader α := do
  throw (.unsettled issue (← get))

/-- The next character. -/
def peek? : Reader (Option Char) := do
  return (← get).rest.head?

/-- Steps over the next character. -/
def advance : Reader Unit :=
  modify Cursor.advance

/-- Steps over blanks. -/
def skipBlanks : Reader Unit :=
  modify Cursor.skipBlanks

/-- Steps over blanks and gives the next character. -/
def peekAfterBlanks? : Reader (Option Char) := do
  skipBlanks
  peek?

/-- Repeats a round of reading until it answers.  A round steps over a byte at least, so there
are at most as many rounds as bytes left, and one more that finds the end of the text. -/
def iterate (round : σ → Reader (σ ⊕ α)) (s : σ) : Reader α := do
  go ((← get).left + 1) s
where
  /-- At most `n` rounds. -/
  go : Nat → σ → Reader α
    | 0, _ => failAtNext .endInValue
    | n + 1, s => do
      match ← round s with
      | .inl t => go n t
      | .inr a => return a

/-- Settles an open fault at the place that `settle` finds from where the reader stopped. -/
def settling (settle : Cursor → Cursor) (r : Reader α) : Reader α := fun c =>
  match r c with
  | .error (.unsettled issue stop) => .error (.settled issue (settle stop).offset)
  | other => other

/-- Reads a whole text.  The place of an issue is the one its fault gives. -/
def run (r : Reader α) (text : String) : Except Located α :=
  let cs := text.toList
  match r (Cursor.start cs) with
  | .ok (a, _) => .ok a
  | .error (.settled issue offset) => .error ⟨issue, positionAt cs offset⟩
  | .error (.unsettled issue stop) => .error ⟨issue, positionAt cs stop.offset⟩

end Reader

end Pipewright.Json
