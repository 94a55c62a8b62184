import Pipewright.Shell.Script

/-!
# The grammar of shell scripts

A text is read line by line, as far as lines belong together.  What has been read before a fault is
still run, so a text with a fault in it is a script that ends in one.

* `SyntaxFault`, `Reader`: reading tokens.
* `Script.parse`: the script of a text.
-/

namespace Pipewright.Shell

/-- Tokens with their lines. -/
abbrev Tokens := List (Nat × Token)

/-- What is wrong with a text that is no script, and the line. -/
structure SyntaxFault where
  line : Option Nat
  message : String
deriving DecidableEq, Repr

/-- A reader of tokens. -/
abbrev Reader := StateT Tokens (Except SyntaxFault)

namespace Reader

/-! ## Words with a meaning -/

/-- The words that start or end compound commands. -/
def keywords : List String :=
  ["if", "then", "elif", "else", "fi", "for", "while", "until", "do", "done", "case", "esac",
    "\x7b", "\x7d", "!", "in"]

/-- The text of a word without quotes and parameters. -/
def bareText? : Word → Option String
  | [] => some ""
  | .text s false :: rest => (bareText? rest).map (s ++ ·)
  | _ :: _ => none

/-- The next token is the given bare word. -/
def isKeyword (keyword : String) : Tokens → Bool
  | (_, .word w) :: _ => bareText? w = some keyword
  | _ => false

/-- The next token is the given operator. -/
def isOperator (s : String) : Tokens → Bool
  | (_, .operator t) :: _ => s = t
  | _ => false

/-- The next token ends a list of commands. -/
def endsList (ts : Tokens) : Bool :=
  ts.isEmpty || isOperator ")" ts || isOperator ";;" ts ||
    ["then", "elif", "else", "fi", "do", "done", "esac", "\x7d"].any fun k => isKeyword k ts

/-! ## Faults -/

/-- What is said of a token. -/
def tokenText : Option Token → String
  | none => "end of file"
  | some (.operator "\n") => "newline"
  | some (.operator s) => "\"" ++ s ++ "\""
  | some (.redirect ..) | some (.document ..) => "redirection"
  | some (.word w) =>
    match bareText? w with
    | some s => if keywords.contains s && s ≠ "in" then "\"" ++ s ++ "\"" else "word"
    | none => "word"

/-- Fails at the next token, where another one was expected. -/
def unexpected {α : Type} (expected : Option String) : Reader α := do
  let next := (← get).head?
  let what := tokenText (next.map Prod.snd) ++ " unexpected"
  throw ⟨next.map Prod.fst, match expected with
    | some s => what ++ " (expecting \"" ++ s ++ "\")"
    | none => what⟩

/-- Fails at the next token. -/
def failWith {α : Type} (message : String) : Reader α := do
  throw ⟨(← get).head?.map Prod.fst, message⟩

/-! ## Steps -/

/-- Steps over a token. -/
def skip : Reader Unit :=
  modify (List.drop 1)

/-- Steps over the ends of lines. -/
def skipLines : Reader Unit :=
  modify (List.dropWhile fun t => t.2 = .operator "\n")

/-- Steps over a bare word. -/
def expect (keyword : String) : Reader Unit := do
  if isKeyword keyword (← get) then skip else unexpected (some keyword)

/-- Steps over an operator. -/
def expectOperator (s : String) : Reader Unit := do
  if isOperator s (← get) then skip else unexpected (some s)

/-- The word, unless something has been left open in it. -/
def closedWord (w : Word) : Reader Word := do
  match w.findSome? fun
    | .unclosed message => some message
    | _ => none with
  | some message => failWith message
  | none => return w

/-- Reads a word. -/
def word : Reader Word := do
  match ← get with
  | (_, .word w) :: _ =>
    let w ← closedWord w
    skip
    return w
  | _ => unexpected none

/-- The words up to a token that is none. -/
def wordsBefore : Tokens → List Word
  | (_, .word w) :: ts => w :: wordsBefore ts
  | _ => []

/-- Reads words as long as there are any. -/
def words : Reader (List Word) := do
  let ws ← (wordsBefore (← get)).mapM closedWord
  modify (List.drop ws.length)
  return ws

/-! ## Simple commands -/

/-- The redirection that a sign with a word stands for. -/
def redirection (descriptor : Nat) (kind : String) (w : Word) : Reader Redirection := do
  match kind with
  | ">" | ">|" | "<>" => return .toFile descriptor (kind = "<>") w
  | ">>" => return .toFile descriptor true w
  | "<" => return .fromFile descriptor w
  | _ =>
    match bareText? w with
    | some s =>
      if s = "-" || (s.length = 1 && s.toList.all Char.isDigit) then
        return .toDescriptor descriptor w
      else failWith "Bad fd number"
    | none => return .toDescriptor descriptor w

/-- A piece of a simple command. -/
inductive Piece where
  | word (w : Word)
  | redirection (r : Redirection)

/-- Reads pieces of a command.  The fuel is the number of tokens at hand. -/
def pieces (redirectionsOnly : Bool) : Nat → Reader (List Piece)
  | 0 => return []
  | n + 1 => do
    match ← get with
    | (_, .word w) :: _ =>
      if redirectionsOnly then return []
      let w ← closedWord w
      skip
      return .word w :: (← pieces redirectionsOnly n)
    | (_, .redirect d kind) :: _ =>
      skip
      let w ← word
      let r ← redirection d kind w
      return .redirection r :: (← pieces redirectionsOnly n)
    | (_, .document d w) :: _ =>
      skip
      return .redirection (.fromText d w) :: (← pieces redirectionsOnly n)
    | _ => return []

/-- The redirections among pieces. -/
def redirectionsOf (ps : List Piece) : List Redirection :=
  ps.filterMap fun
    | .redirection r => some r
    | .word _ => none

/-- The words among pieces. -/
def wordsOf (ps : List Piece) : List Word :=
  ps.filterMap fun
    | .word w => some w
    | .redirection _ => none

/-- The variable that a word sets, with its value, after the characters of its name. -/
def settingFrom? (name : List Char) : Word → Option (String × Word)
  | .text s false :: rest =>
    match s.toList with
    | ['='] => if name.isEmpty then none else some (String.ofList name, rest)
    | [c] =>
      if isNameChar c && !(name.isEmpty && c.isDigit) then settingFrom? (name ++ [c]) rest
      else none
    | _ => none
  | _ => none

/-- The variable that a word sets, with its value. -/
def setting? (w : Word) : Option (String × Word) :=
  settingFrom? [] w

/-- The settings before the first word that is none, and the words from there. -/
def splitSettings : List Word → List (String × Word) × List Word
  | [] => ([], [])
  | w :: ws =>
    match setting? w with
    | some s =>
      let (ss, rest) := splitSettings ws
      (s :: ss, rest)
    | none => ([], w :: ws)

/-- Reads a simple command. -/
def simple : Reader Script := do
  let ts ← get
  let ps ← pieces false (ts.length + 1)
  if ps.isEmpty then unexpected none
  let (settings, ws) := splitSettings (wordsOf ps)
  return .simple ((ts.head?.map Prod.fst).getD 1) settings ws (redirectionsOf ps)

/-- A compound command with the redirections after it. -/
def withRedirections (line : Nat) (body : Script) : Reader Script := do
  let ps ← pieces true ((← get).length + 1)
  return if ps.isEmpty then body else .redirected line body (redirectionsOf ps)

/-! ## Compound commands -/

/-- Reads the patterns of a case, between bars and up to a bracket.  The fuel is the number of
tokens at hand. -/
def patterns : Nat → Reader (List Word)
  | 0 => unexpected (some ")")
  | n + 1 => do
    let w ← word
    if isOperator "|" (← get) then
      skip
      return w :: (← patterns n)
    else
      expectOperator ")"
      return [w]

/-- The name of the function whose definition starts here. -/
def functionName? : Tokens → Option Word
  | (_, .word w) :: (_, .operator "(") :: (_, .operator ")") :: _ => some w
  | _ => none

mutual

/-- Reads a list of commands.  It ends with the line unless it may go on.  Here as in what follows
the fuel bounds the depth of the search. -/
def list (mayGoOn : Bool) : Nat → Reader Script
  | 0 => unexpected none
  | n + 1 => do
    let first ← chain n
    let ts ← get
    if isOperator "&" ts then
      skip
      listRest mayGoOn n (.background first)
    else if isOperator ";" ts then
      skip
      listRest mayGoOn n first
    else if isOperator "\n" ts && mayGoOn then listRest mayGoOn n first
    else return first

/-- Reads what follows the first commands of a list. -/
def listRest (mayGoOn : Bool) : Nat → Script → Reader Script
  | 0, _ => unexpected none
  | n + 1, first => do
    if mayGoOn then skipLines
    let ts ← get
    if endsList ts || (isOperator "\n" ts && !mayGoOn) then return first
    else return .sequence first (← list mayGoOn n)

/-- Reads a list of commands in a compound command. -/
def body : Nat → Reader Script
  | 0 => unexpected none
  | n + 1 => do
    skipLines
    if (← get).isEmpty then return .nothing else list true n

/-- Reads commands between `&&` and `||`. -/
def chain : Nat → Reader Script
  | 0 => unexpected none
  | n + 1 => do
    let first ← pipeline n
    links n first

/-- Reads what follows the first commands of a chain. -/
def links : Nat → Script → Reader Script
  | 0, _ => unexpected none
  | n + 1, first => do
    let ts ← get
    if isOperator "&&" ts then
      skip
      skipLines
      let second ← pipeline n
      links n (.and first second)
    else if isOperator "||" ts then
      skip
      skipLines
      let second ← pipeline n
      links n (.or first second)
    else return first

/-- Reads commands between bars. -/
def pipeline : Nat → Reader Script
  | 0 => unexpected none
  | n + 1 => do
    if isKeyword "!" (← get) then
      skip
      return .not (← pipeline n)
    else
      let first ← command n
      if isOperator "|" (← get) then
        skip
        skipLines
        return .pipe first (← pipeline n)
      else return first

/-- Reads a command. -/
def command : Nat → Reader Script
  | 0 => unexpected none
  | n + 1 => do
    let ts ← get
    let line := (ts.head?.map Prod.fst).getD 1
    match functionName? ts with
    | some w => function n w
    | none =>
      if isKeyword "\x7b" ts then
        skip
        let inner ← body n
        expect "\x7d"
        withRedirections line inner
      else if isOperator "(" ts then
        skip
        let inner ← body n
        expectOperator ")"
        withRedirections line (.subshell inner)
      else if isKeyword "if" ts then
        skip
        let inner ← branch n
        withRedirections line inner
      else if isKeyword "while" ts || isKeyword "until" ts then
        skip
        let condition ← body n
        let inner ← loopBody n
        withRedirections line (.repeated (isKeyword "while" ts) condition inner)
      else if isKeyword "for" ts then
        skip
        let inner ← each n
        withRedirections line inner
      else if isKeyword "case" ts then
        skip
        let inner ← choice n
        withRedirections line inner
      else if keywords.any fun k => k ≠ "in" && isKeyword k ts then unexpected none
      else simple

/-- Reads the definition of a function. -/
def function : Nat → Word → Reader Script
  | 0, _ => unexpected none
  | n + 1, w => do
    match (bareText? w).filter isName with
    | some name =>
      skip
      skip
      skip
      skipLines
      return .function name (← command n)
    | none => failWith "Bad function name"

/-- Reads the body of a loop. -/
def loopBody : Nat → Reader Script
  | 0 => unexpected none
  | n + 1 => do
    expect "do"
    let inner ← body n
    expect "done"
    return inner

/-- Reads a condition with its branches, after the first word. -/
def branch : Nat → Reader Script
  | 0 => unexpected none
  | n + 1 => do
    let condition ← body n
    expect "then"
    let yes ← body n
    let ts ← get
    if isKeyword "elif" ts then
      skip
      return .branch condition yes (← branch n)
    else if isKeyword "else" ts then
      skip
      let no ← body n
      expect "fi"
      return .branch condition yes no
    else
      expect "fi"
      return .branch condition yes .nothing

/-- Reads a loop over words, after the first word. -/
def each : Nat → Reader Script
  | 0 => unexpected none
  | n + 1 => do
    match (wordsBefore (← get)).head?.bind bareText? |>.filter isName with
    | none => failWith "Bad for loop variable"
    | some name =>
      skip
      skipLines
      let ws ← if isKeyword "in" (← get) then do
          skip
          let ws ← words
          if !(isOperator ";" (← get) || isOperator "\n" (← get)) then unexpected none
          skip
          pure (some ws)
        else do
          if isOperator ";" (← get) then skip
          pure none
      skipLines
      return .each name ws (← loopBody n)

/-- Reads a choice between cases, after the first word. -/
def choice : Nat → Reader Script
  | 0 => unexpected none
  | n + 1 => do
    let subject ← word
    skipLines
    expect "in"
    return .choice subject (← cases n)

/-- Reads the cases of a choice. -/
def cases : Nat → Reader Script
  | 0 => unexpected none
  | n + 1 => do
    skipLines
    if isKeyword "esac" (← get) then
      skip
      return .noOption
    if isOperator "(" (← get) then skip
    let ps ← patterns ((← get).length + 1)
    skipLines
    let inner ← if endsList (← get) then pure .nothing else list true n
    if isOperator ";;" (← get) then
      skip
      return .option ps inner (← cases n)
    else
      expect "esac"
      return .option ps inner .noOption

end

end Reader

namespace Script

/-- The scripts of tokens, line by line.  The fuel is the number of tokens at hand. -/
def parseLines (lastLine : Nat) : Nat → Tokens → Script
  | 0, _ => .nothing
  | n + 1, ts =>
    match ts.dropWhile fun t => t.2 = .operator "\n" with
    | [] => .nothing
    | t :: ts =>
      let reader : Reader Script := do
        let script ← Reader.list false (8 * (ts.length + 2))
        let rest ← get
        if rest.isEmpty || Reader.isOperator "\n" rest then return script
        else Reader.unexpected none
      match reader.run (t :: ts) with
      | .ok (script, rest) => .sequence script (parseLines lastLine n rest)
      | .error fault => .broken (fault.line.getD lastLine) ("Syntax error: " ++ fault.message)

/-- The script of a text that starts on a line. -/
def parse (line : Nat) (text : String) : Script :=
  let ts := tokenize line text
  parseLines (line + text.toList.count '\n') (ts.length + 1) ts

end Script

end Pipewright.Shell
