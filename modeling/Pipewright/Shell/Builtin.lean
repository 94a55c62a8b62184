import Pipewright.Shell.Condition
import Pipewright.Shell.Expansion
import Pipewright.Shell.Image

/-!
# Commands of the shell itself

Some commands are part of the shell and need no program.  A special one that fails ends the script;
any other one only leaves a code.

* `Builtin`, `builtin?`: what such a command does with its arguments.
* `isSpecial`: the special ones.
* `setOptions`: the options of the shell.
* `nextOption`: the options of scripts.
-/

namespace Pipewright.Shell

/-- What a command of the shell does with its arguments.  It may run scripts; the flag tells that
the code that it leaves is tested. -/
abbrev Builtin := Runner → Bool → List String → Run Unit

/-- The special commands. -/
def specialNames : List String :=
  [".", ":", "break", "continue", "eval", "exec", "exit", "export", "local", "readonly", "return",
    "set", "shift", "times", "trap", "unset"]

/-- The command is a special one. -/
def isSpecial (name : String) : Bool :=
  specialNames.contains name

namespace Builtin

/-- The number that an argument stands for.  It has to be one. -/
def number (arg : String) : Run Nat :=
  match Text.natural? arg with
  | some n => return n
  | none => fail ("Illegal number: " ++ arg)

/-! ## Writing and testing -/

/-- Writes its arguments. -/
def echo : Builtin := fun _ _ args => do
  write 1 (echoBytes args)
  leave 0

/-- Writes its arguments in a format. -/
def printf : Builtin := fun _ _ args => do
  match if args.head? = some "--" then args.drop 1 else args with
  | [] => fail "usage: printf format [arg ...]"
  | format :: args =>
    let f := Shell.printf format args
    f.complaints.forM fun text => say text
    write 1 f.bytes
    leave (if f.failed then failureCode else if f.complaints.isEmpty then 0 else 1)

/-- Tells a condition. -/
def test : Builtin := fun _ _ args => do
  match condition (← get).disk args with
  | .ok b => leave (if b then 0 else 1)
  | .error text => fail text

/-- Tells a condition that stands in brackets. -/
def bracket : Builtin := fun run tested args =>
  if args.getLast? = some "]" then test run tested args.dropLast else fail "missing ]"

/-! ## Leaving -/

/-- Leaves the script. -/
def exit : Builtin := fun _ _ args => do
  match args with
  | [] => throw (.exit (← get).scope.status)
  | a :: _ => throw (.exit (← number a))

/-- Leaves the function. -/
def leaveFunction : Builtin := fun _ _ args => do
  match args with
  | [] => throw Leap.leaveFunction
  | a :: _ =>
    leave (← number a)
    throw Leap.leaveFunction

/-- Leaves loops, or rounds of loops, as many as there are at the most. -/
def leaveLoops (leap : Nat → Leap) : Builtin := fun _ _ args => do
  let loops := (← get).scope.loops
  leave 0
  let go (n : Nat) : Run Unit := if loops = 0 then pure () else throw (leap (min n loops))
  match args with
  | [] => go 1
  | a :: _ =>
    let n ← number a
    if n = 0 then fail ("Illegal number: " ++ a) else go n

/-! ## Parameters -/

/-- The letters of the options that have names. -/
def optionNames : List (String × Char) :=
  [("allexport", 'a'), ("errexit", 'e'), ("noglob", 'f'), ("noclobber", 'C'), ("noexec", 'n'),
    ("nounset", 'u'), ("verbose", 'v'), ("xtrace", 'x')]

/-- The options with one set or not. -/
def withOption (on : Bool) (options : List Char) (c : Char) : List Char :=
  if on then if options.contains c then options else options ++ [c]
  else options.filter (· ≠ c)

/-- The options that arguments set, and the other arguments, if there are any or a double hyphen
tells that there are none.  Besides the usual letters there may be more.  A letter that means
nothing is named. -/
def setOptions (more : List Char) (options : List Char) : List String →
    Except String (List Char × Option (List String))
  | [] => .ok (options, none)
  | a :: rest =>
    match a.toList with
    | ['-', '-'] => .ok (options, some rest)
    | ['-', 'o'] | ['+', 'o'] =>
      match rest with
      | [] => .ok (options, none)
      | name :: rest =>
        match optionNames.lookup name with
        | some c => setOptions more (withOption (a = "-o") options c) rest
        | none => .error ("Illegal option -o " ++ name)
    | sign :: c :: cs =>
      if sign = '-' || sign = '+' then
        match (c :: cs).find? fun c => !(optionLetters ++ 'o' :: more).contains c with
        | some c => .error ("Illegal option " ++ String.ofList [sign, c])
        | none =>
          let letters := (c :: cs).filter (· ≠ 'o')
          let changed := letters.foldl (withOption (sign = '-')) options
          if (c :: cs).contains 'o' then
            match rest with
            | name :: rest =>
              match optionNames.lookup name with
              | some c => setOptions more (withOption (sign = '-') changed c) rest
              | none => .error ("Illegal option -o " ++ name)
            | [] => .ok (changed, none)
          else setOptions more changed rest
      else .ok (options, some (a :: rest))
    | _ => .ok (options, some (a :: rest))

/-- A value as scripts can read it back. -/
def shownValue (name value : String) : String :=
  name ++ "=" ++ quote value

/-- Sets options and arguments, or shows the variables. -/
def setParameters : Builtin := fun _ _ args => do
  leave 0
  if args.isEmpty then
    let shown := (← get).scope.bindings.filterMap fun (name, v) =>
      v.value.map fun value => shownValue name value ++ "\n"
    writeText 1 (String.join shown.mergeSort)
  else
    match setOptions [] (← get).scope.options args with
    | .error text => fail text
    | .ok (options, arguments) =>
      changeScope fun s =>
        let s := { s with options := options }
        (arguments.map s.withArguments).getD s

/-- Leaves out the first arguments. -/
def shift : Builtin := fun _ _ args => do
  let go (n : Nat) : Run Unit := do
    if (← get).scope.arguments.length < n then fail "can't shift that many"
    else
      changeScope fun s => s.withArguments (s.arguments.drop n)
      leave 0
  match args with
  | [] => go 1
  | a :: _ => go (← number a)

/-- The name in a setting, and the value if there is one. -/
def splitSetting (a : String) : String × Option String :=
  match a.toList.span (· ≠ '=') with
  | (name, _ :: value) => (String.ofList name, some (String.ofList value))
  | (name, []) => (String.ofList name, none)

/-- Does something with the variable that each argument names, and gives it the value. -/
def declare (args : List String) (mark : String → Run Unit) : Run Unit := do
  leave 0
  args.forM fun a => do
    let (x, value) := splitSetting a
    if isName x then
      mark x
      match value with
      | some value => assign x value
      | none => pure ()
    else fail (x ++ ": bad variable name")

/-- Shows the variables with a mark. -/
def showMarked (name : String) (isMarked : Variable → Bool) : Run Unit := do
  let shown := (← get).scope.bindings.filterMap fun (n, v) =>
    if isMarked v then
      some (name ++ " " ++ ((v.value.map fun a => shownValue n a).getD n) ++ "\n")
    else none
  writeText 1 (String.join shown.mergeSort)
  leave 0

/-- Lets programs see variables. -/
def exportVariables : Builtin := fun _ _ args =>
  if args.isEmpty || args = ["-p"] then showMarked "export" Variable.exported
  else declare args fun x => changeScope fun s =>
    s.alterVariable x fun v => some { v.getD ⟨none, false, false⟩ with exported := true }

/-- Lets variables keep their values. -/
def readonly : Builtin := fun _ _ args =>
  if args.isEmpty || args = ["-p"] then showMarked "readonly" Variable.readOnly
  else do
    declare args fun _ => pure ()
    args.forM fun a => changeScope fun s => s.alterVariable (splitSetting a).1 fun v =>
      some { v.getD ⟨none, false, false⟩ with readOnly := true }

/-- Makes variables local to the function that is running. -/
def makeLocal : Builtin := fun _ _ args => do
  match (← get).scope.locals with
  | none => fail "not in a function"
  | some _ => declare args fun x => changeScope fun s => { s with
      locals := s.locals.map fun ls =>
        if (ls.lookup x).isSome then ls else (x, s.bindings.lookup x) :: ls }

/-- Takes variables and functions away. -/
def unset : Builtin := fun _ _ args => do
  leave 0
  match args with
  | "-f" :: names => names.forM fun n => changeScope fun s => { s with
      functions := s.functions.filter fun f => f.1 ≠ n }
  | "-v" :: names => names.forM takeAway
  | names => names.forM takeAway
where
  takeAway (n : String) : Run Unit := do
    if isName n then
      match (← get).scope.bindings.lookup n with
      | some ⟨_, _, true⟩ => fail (n ++ ": is read only")
      | _ => changeScope fun s => s.alterVariable n fun _ => none
    else
      match n.toList with
      | '-' :: c :: _ => fail ("Illegal option -" ++ String.singleton c)
      | _ => fail (n ++ ": bad variable name")

/-! ## Options of scripts -/

/-- What follows a letter among the options that a script knows.  A colon after a letter tells that
it has an argument. -/
def afterOption? (letter : Char) : List Char → Option (List Char)
  | [] => none
  | [c] => if c = letter then some [] else none
  | c :: ':' :: rest => if c = letter then some (':' :: rest) else afterOption? letter rest
  | c :: d :: rest => if c = letter then some (d :: rest) else afterOption? letter (d :: rest)

/-- The next option among arguments: its letter, what is to be known as its argument, where to read
on, and a message if it is no option or has not got its argument. -/
structure NextOption where
  letter : Char
  argument : Option String
  place : Nat × Option Nat
  message : Option String := none

/-- The next option, its letter being the next one of an argument.  The number is that of the
argument after it, and so many characters of it have been read with the letter. -/
def optionOf (known : List Char) (args : List String) (number readCount : Nat) (letter : Char)
    (rest : List Char) : NextOption :=
  let silent := known.head? = some ':'
  let refused (as : Char) (place : Nat × Option Nat) (text : String) : NextOption :=
    if silent then ⟨as, some (String.singleton letter), place, none⟩
    else ⟨'?', none, place, some text⟩
  match afterOption? letter known with
  | none =>
    refused '?' (number, some readCount) ("Illegal option -" ++ String.singleton letter)
  | some (':' :: _) =>
    match rest, args[number - 1]? with
    | [], none =>
      refused ':' (number, none) ("No arg for -" ++ String.singleton letter ++ " option")
    | [], some value => ⟨letter, some value, (number + 1, none), none⟩
    | rest, _ => ⟨letter, some (String.ofList rest), (number, none), none⟩
  | some _ => ⟨letter, some "", (number, some readCount), none⟩

/-- The next option among arguments, or the number of the first argument that is none. -/
def nextOption (known : List Char) (args : List String) (place : Nat × Option Nat) :
    Nat ⊕ NextOption :=
  let (number, readCount) := if args.length + 1 < place.1 then (1, none) else place
  let unread := do
    let word ← args[(← if number < 2 then none else some (number - 2))]?
    match word.toList.drop (← readCount) with
    | letter :: rest => some ((← readCount) + 1, letter, rest)
    | [] => none
  match unread with
  | some (readCount, letter, rest) => .inr (optionOf known args number readCount letter rest)
  | none =>
    match (args[number - 1]?.getD "").toList with
    | ['-', '-'] => .inl (number + 1)
    | '-' :: letter :: rest => .inr (optionOf known args (number + 1) 2 letter rest)
    | _ => .inl number

/-- Sets a variable to the letter of the next option among arguments. -/
def readOption : Builtin := fun _ _ args => do
  match args with
  | known :: name :: operands =>
    let s := (← get).scope
    let operands := if operands.isEmpty then s.arguments else operands
    let goOn (place : Nat × Option Nat) (letter : Char) : Run Unit := do
      assign "OPTIND" (Text.decimal place.1)
      if isName name then assign name (String.singleton letter)
      else fail (name ++ ": bad variable name")
      changeScope fun s => { s with optionPlace := place }
    match nextOption known.toList operands s.optionPlace with
    | .inl number =>
      goOn (number, none) '?'
      leave 1
    | .inr o =>
      match o.message with
      | some text => writeText 2 (text ++ "\n")
      | none => pure ()
      match o.argument with
      | some value => assign "OPTARG" value
      | none => changeScope fun s => s.alterVariable "OPTARG" fun _ => none
      goOn o.place o.letter
      leave 0
  | _ => fail "Usage: getopts optstring var [arg...]"

/-! ## Reading -/

/-- The characters of lines that are read on where a backslash ends them.  A backslash takes the
next character as it is. -/
def readMarked (raw : Bool) : Nat → Run (List MarkedChar × Bool)
  | 0 => return ([], false)
  | n + 1 => do
    let (bytes, ended) ← takeLine 0
    let cs := (Text.fromBytesLossy (bytes.filter (· ≠ 0))).toList
    if raw then return (cs.map (·, false), ended)
    let (marked, goesOn) := unescape cs
    if goesOn && ended then
      let (more, ended) ← readMarked raw n
      return (marked ++ more, ended)
    else return (marked, ended)
where
  unescape : List Char → List MarkedChar × Bool
    | [] => ([], false)
    | ['\\'] => ([], true)
    | '\\' :: c :: cs =>
      let (marked, goesOn) := unescape cs
      ((c, true) :: marked, goesOn)
    | c :: cs =>
      let (marked, goesOn) := unescape cs
      ((c, false) :: marked, goesOn)

/-- The character stands between words. -/
def isSeparator (separators : List Char) (c : MarkedChar) : Bool :=
  !c.2 && separators.contains c.1

/-- The character is a blank that stands between words. -/
def isSeparatingBlank (separators : List Char) (c : MarkedChar) : Bool :=
  isSeparator separators c && isBlank c.1

/-- The words of a line, so many at the most.  The last one is all that is left. -/
def lineWords (separators : List Char) : Nat → List MarkedChar → List String
  | 0, _ => []
  | 1, cs =>
    [markedText (cs.reverse.dropWhile (isSeparatingBlank separators)).reverse]
  | n + 2, cs =>
    let (word, rest) := cs.span fun c => !isSeparator separators c
    let after := rest.dropWhile (isSeparatingBlank separators)
    let after := match after with
      | c :: cs =>
        if isSeparator separators c then cs.dropWhile (isSeparatingBlank separators) else after
      | [] => []
    markedText word :: lineWords separators (n + 1) after

/-- Reads a line into variables. -/
def read : Builtin := fun _ _ args => do
  let raw := args.head? = some "-r"
  let names := if raw then args.drop 1 else args
  if names.isEmpty then fail "arg count"
  else
    match names.find? fun n => !isName n with
    | some n => fail (n ++ ": bad variable name")
    | none =>
      let m ← get
      let total := (m.readable (m.scope.channel? 0)).length
      let (line, ended) ← readMarked raw (total + 1)
      let separators := m.scope.separators
      let words := lineWords separators names.length
        (line.dropWhile (isSeparatingBlank separators))
      leave (if ended then 0 else 1)
      names.zipIdx.forM fun (n, i) => assign n (words[i]?.getD "")

/-! ## Directories -/

/-- Changes the working directory. -/
def cd : Builtin := fun _ _ args => do
  let m ← get
  let args := args.filter fun a => !(["-P", "-L", "--"].contains a)
  let target := match args.head? with
    | some "-" => (m.scope.valueOf? "OLDPWD").getD ""
    | some p => p
    | none => (m.scope.valueOf? "HOME").getD ""
  match m.disk.found (if target.isEmpty then "." else target) with
  | .ok (place, .directory _) =>
    modify fun m => { m with disk := { m.disk with workingDirectory := place } }
    let path := Path.ofComponents true place
    changeScope fun s =>
      (s.setVariable "OLDPWD" ((s.valueOf? "PWD").getD "")).setVariable "PWD" path
    if args.head? = some "-" then writeText 1 (path ++ "\n")
    leave 0
  | _ => fail ("can't cd to " ++ target)

/-- Writes the working directory. -/
def pwd : Builtin := fun _ _ _ => do
  writeText 1 (Path.ofComponents true (← get).disk.workingDirectory ++ "\n")
  leave 0

/-! ## Signals -/

/-- What `kill` is to do: the signal, and the programs to send it to. -/
def killArguments (args : List String) : Except String (Nat × List String) :=
  let usage := "Usage: kill [-s sigspec | -signum | -sigspec] [pid | job]... or\n" ++
    "kill -l [exitstatus]"
  match args with
  | [] => .error usage
  | a :: targets =>
    match a.toList with
    | ['-', '-'] => .ok (15, targets)
    | ['-', 's'] =>
      match targets with
      | [] => .error "No arg for -s option"
      | name :: targets =>
        match signalNumber? name with
        | some n => if targets.isEmpty then .error usage else .ok (n, targets)
        | none => .error ("invalid signal number or name: " ++ name)
    | '-' :: c :: cs =>
      match signalNumber? (String.ofList (c :: cs)) with
      | some n => if targets.isEmpty then .error usage else .ok (n, targets)
      | none =>
        if c = 's' then
          match signalNumber? (String.ofList cs) with
          | some n => .ok (n, targets)
          | none => .error ("invalid signal number or name: " ++ String.ofList cs)
        else .error ("Illegal option -" ++ String.singleton c)
    | _ => .ok (15, a :: targets)

/-- What happens when a signal reaches the script. -/
def receive (run : Runner) (signal : Nat) : Run Unit := do
  match (← get).scope.traps.lookup signal with
  | some action =>
    let status := (← get).scope.status
    run false (.parse 1 action)
    leave status
  | none => if signal = 0 || ignoredSignals.contains signal then pure () else throw (.killed signal)

/-- Sends a signal.  Of the programs that run only the script itself gets one. -/
def kill : Builtin := fun run _ args => do
  match args with
  | ["-l", a] =>
    let n := (Text.natural? a).getD 0
    match ExitStatus.signalName? (if 128 < n then n - 128 else n) with
    | some name =>
      writeText 1 (name ++ "\n")
      leave 0
    | none => fail ("invalid signal number or exit status: " ++ a)
  | ["-l"] =>
    writeText 1 (String.join (ExitStatus.signalNames.map (· ++ "\n")))
    leave 0
  | args =>
    match killArguments args with
    | .error text => fail text
    | .ok (signal, targets) =>
      leave 0
      targets.forM fun target => do
        match Text.natural? target with
        | none => fail ("Illegal number: " ++ target)
        | some n =>
          if n = (← get).scope.number then receive run signal
          else complain "No such process\n" 1

/-- The number of a signal, or of the end of the script. -/
def trapNumber? (s : String) : Option Nat :=
  if s.toUpper = "EXIT" then some 0 else signalNumber? s

/-- Tells what is to be done at signals and at the end of the script. -/
def trap : Builtin := fun _ _ args => do
  leave 0
  match args with
  | [] =>
    (← get).scope.traps.forM fun (n, action) =>
      writeText 1 ("trap -- " ++ quote action ++ " " ++
        (if n = 0 then "EXIT" else (ExitStatus.signalName? n).getD (Text.decimal n)) ++ "\n")
  | [signal] => change none [signal]
  | action :: signals =>
    if (Text.natural? action).isSome then change none (action :: signals)
    else if action = "-" then change none signals
    else change (some action) signals
where
  change (action : Option String) (signals : List String) : Run Unit :=
    signals.forM fun s => do
      match trapNumber? s with
      | none =>
        writeText 2 ("trap: " ++ s ++ ": bad trap\n")
        leave 1
      | some n => changeScope fun scope => { scope with
          traps := (scope.traps.filter fun t => t.1 ≠ n) ++ (action.map fun a => (n, a)).toList }

/-! ## Scripts -/

/-- Runs its arguments as a script. -/
def eval : Builtin := fun run tested args => do
  leave 0
  run tested (.parse 1 (String.intercalate " " args))

/-- Where a script is that is run in the scope of another one. -/
def scriptPath (d : Disk) (search : Option String) (name : String) : Option Path :=
  if name.toList.contains '/' then some name
  else (candidates search name).find? fun p => d.isFile p

/-- Runs the script in a file in this scope. -/
def dot : Builtin := fun run tested args => do
  match args with
  | [] => pure ()
  | name :: _ =>
    let m ← get
    match scriptPath m.disk (m.scope.valueOf? "PATH") name with
    | none => fail (name ++ ": not found")
    | some p =>
      match m.disk.readBytes p with
      | .error fault => fail (openingText false p fault)
      | .ok bytes =>
        leave 0
        changeScope fun s => { s with within := p ++ ": " }
        match ← attempt (run tested (.parse 1 (Text.fromBytesLossy bytes.toList))) with
        | .ok () | .error .leaveFunction => pure ()
        | .error leap => throw leap

/-- Waits for scripts in the background, which have ended already. -/
def wait : Builtin := fun _ _ args => do
  match args.getLast? with
  | none => leave 0
  | some a =>
    let n := (Text.natural? a).getD 0
    leave (((← get).scope.jobs.lookup n).getD 127)

/-- Shows which rights new files do not get. -/
def umask : Builtin := fun _ _ args => do
  if args.isEmpty then writeText 1 "0022\n"
  leave 0

/-- Does nothing. -/
def nothing : Builtin := fun _ _ _ => leave 0

/-- The commands of the shell by name, but for those that run programs. -/
def all : List (String × Builtin) :=
  [(".", dot), (":", nothing), ("[", bracket), ("alias", nothing), ("bg", nothing),
    ("break", leaveLoops .leaveLoop), ("cd", cd), ("continue", leaveLoops .nextRound),
    ("echo", echo), ("eval", eval), ("exit", exit), ("export", exportVariables),
    ("false", fun _ _ _ => leave 1), ("fg", nothing), ("getopts", readOption), ("hash", nothing),
    ("jobs", nothing), ("kill", kill), ("local", makeLocal), ("printf", printf), ("pwd", pwd),
    ("read", read), ("readonly", readonly), ("return", leaveFunction), ("set", setParameters),
    ("shift", shift), ("test", test), ("times", nothing), ("trap", trap), ("true", nothing),
    ("ulimit", nothing), ("umask", umask), ("unalias", nothing), ("unset", unset), ("wait", wait)]

/-- The names of the commands that run programs. -/
def runningNames : List String := ["command", "exec", "type"]

end Builtin

/-- What a command of the shell does, if there is one with the name. -/
def builtin? (name : String) : Option Builtin :=
  Builtin.all.lookup name

/-- There is a command of the shell with the name. -/
def isBuiltin (name : String) : Bool :=
  (builtin? name).isSome || Builtin.runningNames.contains name

end Pipewright.Shell
