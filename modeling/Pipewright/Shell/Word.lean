/-!
# Shell words

A value is put on a command line between single quotes, between which the shell takes every
character as it is.  A single quote itself leaves the quotes, stands behind a backslash, and
enters them again.

* `quote`: a value as one word of a command line.
* `words`: the words of a command line; `words_quote` reads a quoted value back.
-/

namespace Pipewright.Shell

/-! ## Quoting -/

/-- A character of a value between single quotes. -/
def quoteChar (c : Char) : List Char :=
  if c = '\'' then ['\'', '\\', '\'', '\''] else [c]

/-- A value as one word of a command line. -/
def quote (value : String) : String :=
  String.ofList (['\''] ++ value.toList.flatMap quoteChar ++ ['\''])

/-! ## Words -/

/-- The characters between words. -/
def isBlank (c : Char) : Bool :=
  c = ' ' || c = '\t' || c = '\n'

/-- Where a reader of a command line stands, with the word that has been read so far. -/
inductive WordState where
  /-- Between two words. -/
  | between
  | within (word : List Char)
  /-- Between single quotes. -/
  | quoted (word : List Char)
  /-- Behind a backslash. -/
  | escaped (word : List Char)
deriving DecidableEq, Repr

/-- What a character outside quotes that is no blank does to a word. -/
def WordState.extend (word : List Char) (c : Char) : WordState :=
  if c = '\'' then quoted word
  else if c = '\\' then escaped word
  else within (word ++ [c])

/-- The words of the rest of a command line.  Single quotes take all between them as it is, a
backslash takes the next character so, and blanks end words.  There are no words when a quote is
left open. -/
def wordsFrom : WordState → List Char → Option (List (List Char))
  | .between, [] => some []
  | .within word, [] => some [word]
  | .quoted _, [] => none
  | .escaped word, [] => some [word ++ ['\\']]
  | .between, c :: cs =>
    if isBlank c then wordsFrom .between cs else wordsFrom (.extend [] c) cs
  | .within word, c :: cs =>
    if isBlank c then (wordsFrom .between cs).map (word :: ·) else wordsFrom (.extend word c) cs
  | .quoted word, c :: cs =>
    wordsFrom (if c = '\'' then .within word else .quoted (word ++ [c])) cs
  | .escaped word, c :: cs => wordsFrom (.within (word ++ [c])) cs

/-- The words of a command line. -/
def words (line : String) : Option (List String) :=
  (wordsFrom .between line.toList).map fun ws => ws.map String.ofList

/-! ## Reading a quoted value back -/

/-- A value between quotes goes on with the word as it is, up to the closing quote. -/
theorem wordsFrom_quoted (value word rest : List Char) :
    wordsFrom (.quoted word) (value.flatMap quoteChar ++ '\'' :: rest) =
      wordsFrom (.within (word ++ value)) rest := by
  induction value generalizing word with
  | nil => simp [wordsFrom]
  | cons c cs ih =>
    rw [List.flatMap_cons, List.append_assoc, quoteChar]
    split
    · next h =>
      subst h
      simp [wordsFrom, WordState.extend, isBlank, ih]
    · next h => simp [wordsFrom, h, ih]

/-- A quoted value is one word, the value itself. -/
theorem words_quote (value : String) : words (quote value) = some [value] := by
  have h := wordsFrom_quoted value.toList [] []
  simp_all [words, quote, wordsFrom, WordState.extend, isBlank]

end Pipewright.Shell
