import Pipewright.Shell.Word
import Pipewright.Text.Pieces

/-!
# Tokens of shell scripts

A script is a row of words and operators.  A word is made of parts: texts, which may be quoted, and
parts whose text is known only when the script runs.

* `Part`, `Word`, `Token`: the parts of words, and the tokens.
* `partsFrom`: the parts of a text, as far as it belongs together.
* `tokenize`: the tokens of a script, each with its line.
-/

namespace Pipewright.Shell

/-! ## Parts -/

/-- What is made of the value of a parameter. -/
inductive Alteration where
  /-- The number of its characters. -/
  | length
  /-- Another text for a value that is missing. -/
  | fallback (evenEmpty : Bool)
  /-- Another text for a value that is missing, which the parameter gets too. -/
  | assignment (evenEmpty : Bool)
  /-- The script ends when the value is missing. -/
  | demand (evenEmpty : Bool)
  /-- Another text for a value that is not missing. -/
  | replacement (evenEmpty : Bool)
  | withoutStart (longest : Bool)
  | withoutEnd (longest : Bool)
  /-- Nothing that there is. -/
  | unknown
deriving DecidableEq, Repr

/-- A part of a word. -/
inductive Part where
  | text (s : String) (quoted : Bool)
  /-- The value of a parameter, or what an alteration with its operand makes of it. -/
  | parameter (name : String) (alteration : Option Alteration) (operand : String) (quoted : Bool)
  /-- What a script writes.  Its lines may be counted from one. -/
  | output (script : String) (ownLines : Bool) (quoted : Bool)
  /-- The value of an arithmetic expression. -/
  | value (expression : String) (quoted : Bool)
  /-- What has been opened but not closed. -/
  | unclosed (message : String)
deriving DecidableEq, Repr, Inhabited

/-- A word before what is known only later is put in. -/
abbrev Word := List Part

/-! ## What belongs together -/

/-- What is to come so that something that has been opened is closed. -/
inductive Closer where
  | quote
  | doubleQuote
  | backquote
  | brace
  | bracket
  /-- The word `esac`.  Before it brackets close nothing. -/
  | esac
  /-- The end of a line, which ends a comment. -/
  | lineEnd
deriving DecidableEq, Repr

/-- The character that closes, if it is one. -/
def Closer.char? : Closer → Option Char
  | quote => some '\''
  | doubleQuote => some '"'
  | backquote => some '\x60'
  | brace => some '\x7d'
  | bracket => some ')'
  | lineEnd => some '\n'
  | esac => none

/-- With these closers to come, the innermost one first, a single quote stands between double
quotes, where it means nothing. -/
def betweenQuotes (quoted : Bool) : List Closer → Bool
  | [] => quoted
  | .doubleQuote :: _ => true
  | .brace :: below => betweenQuotes quoted below
  | _ :: _ => false

/-- What a character opens by itself. -/
def openedBy : Char → Option Closer
  | '\'' => some .quote
  | '"' => some .doubleQuote
  | '\x60' => some .backquote
  | _ => none

/-- What a character opens where closers are to come. -/
def opens (quoted : Bool) (closers : List Closer) (c : Char) : Option Closer :=
  match closers with
  | .doubleQuote :: _ => if c = '\x60' then some .backquote else none
  | .brace :: _ => if c = '\'' && betweenQuotes quoted closers then none else openedBy c
  | .bracket :: _ => if c = '(' then some .bracket else openedBy c
  | .esac :: _ => openedBy c
  | _ => none

/-- Commands stand here, and not only text. -/
def holdsCommands : List Closer → Bool
  | .bracket :: _ | .esac :: _ => true
  | _ => false

/-- The word stands here, and ends here. -/
def wordStands (w : String) (cs : List Char) : Bool :=
  w.toList.isPrefixOf cs && ((cs.drop w.length).head?.map fun c => !c.isAlphanum).getD true

/-- A choice between cases stands here. -/
def choiceStands (cs : List Char) : Bool :=
  wordStands "case" cs &&
    let afterCase := (cs.drop 4).dropWhile (· = ' ')
    let afterSubject := (afterCase.dropWhile fun c => !isBlank c).dropWhile isBlank
    wordStands "in" afterSubject

/-- The closers to come at the start of a word. -/
def atWord (closers : List Closer) (cs : List Char) : List Closer :=
  if !holdsCommands closers then closers
  else if cs.head? = some '#' then .lineEnd :: closers
  else if choiceStands cs then .esac :: closers
  else if closers.head? = some .esac && wordStands "esac" cs then closers.drop 1
  else closers

/-- The characters after which a word starts. -/
def startsWord (c : Char) : Bool :=
  isBlank c || [';', '&', '|', '(', ')'].contains c

/-- The characters up to the outermost closer, and what follows it.  There are none when something
is left open. -/
def enclosed (quoted : Bool) : List Closer → List Char → Option (List Char × List Char)
  | [], cs => some ([], cs)
  | _ :: _, [] => none
  | .quote :: below, c :: cs =>
    keep c (enclosed quoted (if c = '\'' then below else .quote :: below) cs)
  | .lineEnd :: below, c :: cs =>
    keep c (enclosed quoted (if c = '\n' then atWord below cs else .lineEnd :: below) cs)
  | closers, '\\' :: c :: cs => keep '\\' (keep c (enclosed quoted closers cs))
  | closers, '$' :: '(' :: cs =>
    let inner := if closers.head? = some .backquote then closers
      else atWord (.bracket :: closers) cs
    keep '$' (keep '(' (enclosed quoted inner cs))
  | closers, '$' :: '\x7b' :: cs =>
    let inner := if closers.head? = some .backquote then closers else .brace :: closers
    keep '$' (keep '\x7b' (enclosed quoted inner cs))
  | [closer], c :: cs =>
    if closer.char? = some c then some ([], cs)
    else
      let inner := (opens quoted [closer] c).toList ++ [closer]
      keep c (enclosed quoted (next inner c cs) cs)
  | closer :: below, c :: cs =>
    if closer.char? = some c then keep c (enclosed quoted (next below c cs) cs)
    else
      let inner := (opens quoted (closer :: below) c).toList ++ closer :: below
      keep c (enclosed quoted (next inner c cs) cs)
where
  keep (c : Char) (r : Option (List Char × List Char)) : Option (List Char × List Char) :=
    r.map fun (inside, rest) => (c :: inside, rest)
  next (closers : List Closer) (c : Char) (cs : List Char) : List Closer :=
    if startsWord c then atWord closers cs else closers

/-- The characters up to a closer, and what follows it. -/
def enclosedBy (quoted : Bool) (closer : Closer) (cs : List Char) :
    Option (List Char × List Char) :=
  enclosed quoted (atWord [closer] cs) cs

/-! ## Parameters -/

/-- Characters of the names of variables. -/
def isNameChar (c : Char) : Bool :=
  c.isAlphanum || c = '_'

/-- The text is the name of a variable. -/
def isName (s : String) : Bool :=
  match s.toList with
  | [] => false
  | c :: cs => !c.isDigit && (c :: cs).all isNameChar

/-- The parameters whose names are no names of variables. -/
def specialParameters : List Char := ['@', '*', '#', '?', '$', '!', '-']

/-- The name that starts here, and what follows it.  Between braces a number may have several
digits. -/
def nameAt (braces : Bool) : List Char → List Char × List Char
  | [] => ([], [])
  | c :: cs =>
    if specialParameters.contains c then ([c], cs)
    else if c.isDigit then
      if braces then (c :: cs).span Char.isDigit else ([c], cs)
    else (c :: cs).span isNameChar

/-- The alteration that a sign stands for. -/
def alterationOf? (evenEmpty : Bool) (c : Char) : Option Alteration :=
  if c = '-' then some (.fallback evenEmpty)
  else if c = '=' then some (.assignment evenEmpty)
  else if c = '?' then some (.demand evenEmpty)
  else if c = '+' then some (.replacement evenEmpty)
  else none

/-- The alteration after the name of a parameter, with its operand. -/
def alterationAt : List Char → Option Alteration × List Char
  | [] => (none, [])
  | '%' :: '%' :: w => (some (.withoutEnd true), w)
  | '%' :: w => (some (.withoutEnd false), w)
  | '#' :: '#' :: w => (some (.withoutStart true), w)
  | '#' :: w => (some (.withoutStart false), w)
  | ':' :: c :: w => (some ((alterationOf? true c).getD .unknown), w)
  | c :: w => (some ((alterationOf? false c).getD .unknown), w)

/-- The parameter between braces. -/
def braced (quoted : Bool) (inside : List Char) : Part :=
  let plain :=
    let (name, rest) := nameAt true inside
    let (alteration, operand) := alterationAt rest
    Part.parameter (String.ofList name)
      (if name.isEmpty then some .unknown else alteration) (String.ofList operand) quoted
  match inside with
  | '#' :: c :: cs =>
    match nameAt true (c :: cs) with
    | (n :: name, []) => .parameter (String.ofList (n :: name)) (some .length) "" quoted
    | _ => plain
  | _ => plain

/-- What stands between the brackets after a dollar sign: a script, or an expression in brackets of
its own. -/
def bracketed (quoted : Bool) (inside : List Char) : Part :=
  let script := Part.output (String.ofList inside) false quoted
  match inside with
  | '(' :: rest =>
    match enclosedBy false .bracket rest with
    | some (expression, []) => .value (String.ofList expression) quoted
    | _ => script
  | _ => script

/-- The part after a dollar sign, and what follows it. -/
def dollarAt (quoted : Bool) : List Char → Part × List Char
  | '\x7b' :: cs =>
    match enclosedBy quoted .brace cs with
    | some (inside, rest) => (braced quoted inside, rest)
    | none => (.unclosed "Missing '\x7d'", [])
  | '(' :: cs =>
    match enclosedBy false .bracket cs with
    | some (inside, rest) => (bracketed quoted inside, rest)
    | none => (.unclosed "end of file unexpected (expecting \")\")", [])
  | cs =>
    match nameAt false cs with
    | ([], _) => (.text "$" quoted, cs)
    | (name, rest) => (.parameter (String.ofList name) none "" quoted, rest)

/-- A script between backquotes, in which a backslash takes some characters as they are. -/
def unescaped (quoted : Bool) : List Char → List Char
  | '\\' :: c :: cs =>
    if ['$', '\\', '\x60'].contains c || (quoted && c = '"') then c :: unescaped quoted cs
    else '\\' :: c :: unescaped quoted cs
  | c :: cs => c :: unescaped quoted cs
  | [] => []

/-- The part after a backquote, and what follows it. -/
def backquoteAt (quoted : Bool) (cs : List Char) : Part × List Char :=
  match enclosedBy false .backquote cs with
  | some (inside, rest) => (.output (String.ofList (unescaped quoted inside)) true quoted, rest)
  | none => (.unclosed "EOF in backquote substitution", [])

/-! ## Words -/

/-- Where parts stand. -/
inductive Place where
  /-- In a script, where a word ends before a blank or an operator. -/
  | script
  /-- In the operand of an alteration. -/
  | operand
  /-- Between double quotes. -/
  | quotes
  /-- In the operand of an alteration between double quotes. -/
  | quotedOperand
  /-- In a text that is given to a command. -/
  | document
deriving DecidableEq, Repr

/-- What stands here is quoted. -/
def Place.isQuoted : Place → Bool
  | script | operand => false
  | quotes | quotedOperand | document => true

/-- A backslash takes the character as it is. -/
def Place.escapes (p : Place) (c : Char) : Bool :=
  !p.isQuoted || ['$', '\\', '\x60'].contains c || (p ≠ .document && c = '"') ||
    (p = .quotedOperand && c = '\x7d')

/-- The characters that end a word. -/
def endsWord (c : Char) : Bool :=
  isBlank c || [';', '&', '|', '<', '>', '(', ')'].contains c

/-- What is said of a quote that is not closed. -/
def openQuoteText : String := "Unterminated quoted string"

/-- The parts that start here as far as they belong together, and what follows them.  The fuel is
the number of characters at hand. -/
def partsFrom (p : Place) : Nat → List Char → Word × List Char
  | 0, cs => ([], cs)
  | _, [] => (if p = .quotes then [.unclosed openQuoteText] else [], [])
  | n + 1, '$' :: cs =>
    let (part, after) := dollarAt p.isQuoted cs
    follow part (partsFrom p n after)
  | n + 1, '\x60' :: cs =>
    let (part, after) := backquoteAt p.isQuoted cs
    follow part (partsFrom p n after)
  | n + 1, '\\' :: c :: cs =>
    if c = '\n' then partsFrom p n cs
    else if p.escapes c then follow (.text (String.singleton c) true) (partsFrom p n cs)
    else follow (.text (String.ofList ['\\', c]) true) (partsFrom p n cs)
  | n + 1, '"' :: cs =>
    match p with
    | .quotes => ([], cs)
    | .document => follow (.text "\"" true) (partsFrom p n cs)
    | .quotedOperand => partsFrom p n cs
    | .script | .operand =>
      let (inner, after) := partsFrom .quotes n cs
      let (ps, rest) := partsFrom p n after
      ((if inner.isEmpty then [.text "" true] else inner) ++ ps, rest)
  | n + 1, c :: cs =>
    if c = '\'' && !p.isQuoted then
      match cs.span (· ≠ '\'') with
      | (inside, _ :: after) => follow (.text (String.ofList inside) true) (partsFrom p n after)
      | (_, []) => ([.unclosed openQuoteText], [])
    else if p = .script && endsWord c then ([], c :: cs)
    else follow (.text (String.singleton c) p.isQuoted) (partsFrom p n cs)
where
  follow (part : Part) (r : Word × List Char) : Word × List Char :=
    (part :: r.1, r.2)

/-- The parts of a whole text. -/
def partsOf (p : Place) (text : String) : Word :=
  (partsFrom p (text.toList.length + 1) text.toList).1

/-- The text of a word as it stands, without its quotes, and whether some of it is quoted. -/
def plainWord (w : Word) : String × Bool :=
  (String.join (w.map fun
    | .text s _ => s
    | _ => ""),
   w.any fun
    | .text _ quoted => quoted
    | _ => false)

/-! ## Scripts -/

/-- A token of a script. -/
inductive Token where
  | word (w : Word)
  | operator (s : String)
  /-- A redirection of a descriptor, which a word follows. -/
  | redirect (descriptor : Nat) (kind : String)
  /-- A redirection of a descriptor to a text. -/
  | document (descriptor : Nat) (text : Word)
deriving DecidableEq, Repr, Inhabited

/-- The signs of redirections, the longer ones before the shorter ones that they start with. -/
def redirectSigns : List String :=
  ["<<-", ">>", ">&", ">|", "<<", "<&", "<>", ">", "<"]

/-- The redirection that starts here, of the given descriptor, and what follows it. -/
def redirectAt (descriptor : Option Nat) (cs : List Char) : Option (Token × List Char) :=
  (redirectSigns.find? fun s => s.toList.isPrefixOf cs).map fun s =>
    let usual := if s.startsWith ">" then 1 else 0
    (.redirect (descriptor.getD usual) s, cs.drop s.length)

/-- The operators, the longer ones before the shorter ones that they start with. -/
def operatorSigns : List String := [";;", "&&", "||", ";", "&", "|", "(", ")"]

/-- The operator or the redirection that starts here, and what follows it. -/
def operatorAt (cs : List Char) : Option (Token × List Char) :=
  match operatorSigns.find? fun s => s.toList.isPrefixOf cs with
  | some s => some (.operator s, cs.drop s.length)
  | none =>
    match cs with
    | d :: rest =>
      if d.isDigit then redirectAt (some (d.toNat - '0'.toNat)) rest else redirectAt none cs
    | [] => none

/-- A text that starts on the next line, and has been announced. -/
structure Announcement where
  /-- The line after it. -/
  ending : String
  /-- The text is taken as it stands. -/
  plain : Bool
  /-- Tabs at the start of its lines are left out. -/
  indented : Bool
deriving DecidableEq, Repr

/-- The lines up to the ending, and what follows it.  The fuel is the number of characters at
hand. -/
def announcedLines (a : Announcement) : Nat → List Char → List (List Char) × List Char
  | 0, cs => ([], cs)
  | _, [] => ([], [])
  | n + 1, cs =>
    let (line, rest) := cs.span (· ≠ '\n')
    let line := if a.indented then line.dropWhile (· = '\t') else line
    if String.ofList line = a.ending then ([], rest.drop 1)
    else
      let (lines, after) := announcedLines a n (rest.drop 1)
      ((line ++ ['\n']) :: lines, after)

/-- The text that has been announced, and what follows it. -/
def announcedText (a : Announcement) (cs : List Char) : Word × List Char :=
  let (lines, rest) := announcedLines a cs.length cs
  let text := String.ofList lines.flatten
  (if a.plain then [.text text true] else partsOf .document text, rest)

/-- The texts that have been announced, and what follows them. -/
def announcedTexts : List Announcement → List Char → List Word × List Char
  | [], cs => ([], cs)
  | a :: as, cs =>
    let (w, rest) := announcedText a cs
    let (ws, after) := announcedTexts as rest
    (w :: ws, after)

/-- A token with its line, or a text that has been announced before. -/
abbrev Lexeme := (Nat × Token) ⊕ Word

/-- The tokens of a script with their lines, and the announced texts after them.  The fuel is the
number of characters at hand. -/
def lexemesFrom : Nat → Nat → Option Bool → List Announcement → List Char → List Lexeme
  | 0, _, _, _, _ => []
  | _, _, _, _, [] => []
  | n + 1, line, _, announced, '\n' :: cs =>
    let (texts, rest) := announcedTexts announced cs
    let lines := (cs.take (cs.length - rest.length)).count '\n'
    .inl (line, .operator "\n") :: texts.map .inr ++ lexemesFrom n (line + lines + 1) none [] rest
  | n + 1, line, awaited, announced, '\\' :: '\n' :: cs =>
    lexemesFrom n (line + 1) awaited announced cs
  | n + 1, line, awaited, announced, '#' :: cs =>
    lexemesFrom n line awaited announced (cs.dropWhile (· ≠ '\n'))
  | n + 1, line, awaited, announced, c :: cs =>
    if isBlank c then lexemesFrom n line awaited announced cs
    else
      match operatorAt (c :: cs) with
      | some (token, rest) =>
        let awaited := match token with
          | .redirect _ "<<" => some false
          | .redirect _ "<<-" => some true
          | _ => none
        .inl (line, token) :: lexemesFrom n line awaited announced rest
      | none =>
        let (w, rest) := partsFrom .script (n + 1) (c :: cs)
        let lines := ((c :: cs).take (cs.length + 1 - rest.length)).count '\n'
        let announced := match awaited with
          | some indented =>
            let (ending, plain) := plainWord w
            announced ++ [⟨ending, plain, indented⟩]
          | none => announced
        .inl (line, .word w) :: lexemesFrom n (line + lines) none announced rest

/-- The tokens with each announced text where it has been announced. -/
def placeTexts : List Word → List (Nat × Token) → List (Nat × Token)
  | texts, (line, .redirect d kind) :: (l, .word w) :: ts =>
    if kind = "<<" || kind = "<<-" then
      (line, .document d (texts.head?.getD [])) :: placeTexts texts.tail ts
    else (line, .redirect d kind) :: (l, .word w) :: placeTexts texts ts
  | texts, t :: ts => t :: placeTexts texts ts
  | _, [] => []

/-- The tokens of a script that starts on a line, with their lines. -/
def tokenize (line : Nat) (script : String) : List (Nat × Token) :=
  let lexemes := lexemesFrom (script.toList.length + 1) line none [] script.toList
  placeTexts (lexemes.filterMap Sum.getRight?) (lexemes.filterMap Sum.getLeft?)

end Pipewright.Shell
