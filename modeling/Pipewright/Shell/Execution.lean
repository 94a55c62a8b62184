import Pipewright.Shell.Builtin
import Pipewright.Shell.Tool

/-!
# Running shell scripts

A script is run along its shape.  What is met again on the way, such as the body of a function or a
script in a file, is run by a runner that is given.

* `redirect`: where descriptors lead for a command.
* `asProgram`, `runImage`: programs that scripts start.
* `simple`: simple commands.
* `Script.eval`, `runner`: scripts.
-/

namespace Pipewright.Shell

/-- A script that goes on for too long is ended by this signal. -/
def endlessSignal : Nat := 9

/-! ## Redirections -/

/-- What a redirection connects its descriptor to.  There is a message when that cannot be done. -/
def Redirection.channel (run : Runner) : Redirection →
    Run (Nat × Except String (Option Channel))
  | .toFile descriptor append target => do
    return (descriptor, (← openOutput append (← expandText run target)).map some)
  | .fromFile descriptor source => do
    return (descriptor, (← openInput (← expandText run source)).map some)
  | .fromText descriptor text => do
    return (descriptor, .ok (some (← newBuffer (textBytes (← expandText run text)))))
  | .toDescriptor descriptor target => do
    let name ← expandText run target
    if name = "-" then return (descriptor, .ok none)
    match (Text.natural? name).bind (← get).scope.channel? with
    | some channel => return (descriptor, .ok (some channel))
    | none => return (descriptor, .error (name ++ ": Bad file descriptor"))

/-- Connects descriptors one after the other.  There is a message when that cannot be done. -/
def redirect (run : Runner) : List Redirection → Run (Option String)
  | [] => return none
  | r :: rest => do
    match ← r.channel run with
    | (descriptor, .ok channel) =>
      changeScope fun s => s.connect descriptor channel
      redirect run rest
    | (_, .error text) => return some text

/-- Does something under redirections, or something else when they cannot be done. -/
def redirected (run : Runner) (rs : List Redirection) (body : Run Unit)
    (otherwise : Run Unit) : Run Unit := do
  let before := (← get).scope.descriptors
  let restore := changeScope fun s => { s with descriptors := before }
  match ← redirect run rs with
  | none => thenAlways body restore
  | some text =>
    restore
    complain text failureCode
    otherwise

/-! ## Programs -/

/-- Runs something as a program of its own, in another scope. -/
def asProgram (run : Runner) (scope : Scope) (body : Run Unit) : Run ExitStatus := do
  let before ← get
  set { before with
    scope := { scope with number := before.started }
    started := before.started + 1 }
  let result ← attempt (toEnd run body)
  let code := (← get).scope.status
  modify fun m => { m with
    scope := before.scope
    disk := { m.disk with workingDirectory := before.disk.workingDirectory } }
  return match result with
    | .error (.killed n) => .signal n
    | _ => .code code

/-- The variables of a script that is started: those that are given to it, and those that every
script has. -/
def startingVariables (given : List (String × String)) (workingDirectory : Location) :
    List (String × Variable) :=
  let own (name value : String) : String × Variable := (name, ⟨some value, false, false⟩)
  let inherited := (given.filter fun v => isName v.1).map fun (name, value) =>
    (name, (⟨some value, true, false⟩ : Variable))
  let usual := [own "PATH" usualSearch, own "PWD" (Path.ofComponents true workingDirectory),
    own "OPTIND" "1", own "PS1" "# ", own "PS2" "> ", own "PS4" "+ "]
  inherited.filter (fun v => v.1 ≠ "IFS") ++ [own "IFS" " \t\n"] ++
    usual.filter fun v => (inherited.lookup v.1).isNone

/-- Runs the shell with arguments, in a scope that has been made for it. -/
def shellMain (run : Runner) (name : String) (args : List String) : Run Unit := do
  match Builtin.setOptions ['c'] [] args with
  | .error text => refuse text
  | .ok (options, operands) =>
    changeScope fun s => { s with name := name, options := options.filter (· ≠ 'c') }
    match operands.getD [] with
    | [] =>
      if options.contains 'c' then refuse "-c requires an argument"
      else
        changeScope fun s => { s with options := Builtin.withOption true s.options 's' }
        run false (.parse 1 (Text.fromBytesLossy (← takeAll 0)))
    | first :: rest =>
      if options.contains 'c' then
        changeScope fun s => { s with name := rest.head?.getD name, arguments := rest.drop 1 }
        run false (.parse 1 first)
      else if options.contains 's' then
        changeScope fun s => { s with arguments := first :: rest }
        run false (.parse 1 (Text.fromBytesLossy (← takeAll 0)))
      else
        match (← get).disk.readBytes first with
        | .error .isDirectory => leave 0
        | .ok bytes =>
          changeScope fun s => { s with name := first, arguments := rest }
          run false (.parse 1 (Text.fromBytesLossy bytes.toList))
        | .error fault => refuse (openingText false first fault)
where
  refuse (text : String) : Run Unit := do
    writeText 2 (name ++ ": 0: " ++ text ++ "\n")
    leave failureCode

/-- Runs an image as a program of its own, which sees the given variables. -/
def runImage (run : Runner) (given : List (String × String)) (image : Image) :
    Run ExitStatus := do
  let m ← get
  let scope : Scope := {
    name := ""
    number := 0
    bindings := startingVariables given m.disk.workingDirectory
    descriptors := m.scope.descriptors }
  match image with
  | .shell name args => asProgram run scope (shellMain run name args)
  | .tool tool name args => asProgram run scope (((tool? tool).getD fun _ _ => leave 0) name args)

/-- The code for a program that cannot be started. -/
def notStartedCode : DiskFault → Nat
  | .notFound | .notDirectory | .nameTooLong => 127
  | _ => 126

/-- What is said of a program that cannot be started. -/
def notStartedText : DiskFault → String
  | .notFound | .notDirectory => "not found"
  | fault => fault.name

/-- What is run for a command.  A text that names no interpreter is one for the shell. -/
def commandImage (d : Disk) (search : Option String) (c : Command) : Except DiskFault Image :=
  match imageOf d search c with
  | .error .notExecutable => do
    return .shell "sh" ((← findProgram d search c.program) :: c.arguments)
  | result => result

/-- The settings at the start of the arguments of `env`, and the command after them. -/
def environmentArguments (given : List (String × String)) :
    List String → List (String × String) × List String
  | [] => (given, [])
  | a :: rest =>
    if a = "-i" then environmentArguments [] rest
    else
      match Builtin.splitSetting a with
      | (name, some value) => environmentArguments (alterKey name (fun _ => some value) given) rest
      | (_, none) => (given, a :: rest)

/-- Runs a command as a program of its own, which sees the given variables and is looked for in the
directories of the search.  `env` changes the variables for the command after it; so deep may that
be nested. -/
def runCommand (run : Runner) : Nat → Option String → List (String × String) → Command →
    Run (Except DiskFault ExitStatus)
  | depth, search, given, c => do
    match commandImage (← get).disk search c, depth with
    | .error fault, _ => return .error fault
    | .ok (.tool "env" name args), depth + 1 =>
      match environmentArguments given args with
      | (changed, []) =>
        writeText 1 (String.join (changed.map fun v => v.1 ++ "=" ++ v.2 ++ "\n"))
        return .ok (.code 0)
      | (changed, program :: args) =>
        let search := some ((changed.lookup "PATH").getD usualSearch)
        match ← runCommand run depth search changed ⟨program, args⟩ with
        | .ok status => return .ok status
        | .error fault =>
          writeText 2 (name ++ ": '" ++ program ++ "': " ++ fault.name ++ "\n")
          return .ok (.code (notStartedCode fault))
    | .ok image, _ => return .ok (← runImage run given image)

/-- How deep `env` may be nested. -/
def environmentDepth : Nat := 16

/-- Runs a command as a program that a script has started. -/
def program (run : Runner) (c : Command) : Run Unit := do
  let s := (← get).scope
  match ← runCommand run environmentDepth (s.valueOf? "PATH") s.environment c with
  | .error fault =>
    complain (c.program ++ ": " ++ notStartedText fault) (notStartedCode fault)
  | .ok status =>
    match status with
    | .signal n =>
      unless n = 2 || n = 13 do
        writeText 2 ((signalPhrases[n - 1]?.getD ("Signal " ++ Text.decimal n)) ++ "\n")
    | .code _ => pure ()
    leave status.shellCode

/-! ## Simple commands -/

/-- Sets variables one after the other. -/
def assignAll (run : Runner) : List (String × Word) → Run Unit
  | [] => pure ()
  | (name, w) :: rest => do
    assign name (← expandText run w)
    assignAll run rest

/-- Does something with variables set that programs see too, which get their old values back. -/
def withSettings (run : Runner) (settings : List (String × Word)) (body : Run Unit) : Run Unit := do
  let before := (← get).scope.bindings
  assignAll run settings
  changeScope fun s => settings.foldl (fun s (name, _) =>
    s.alterVariable name (Option.map fun v => { v with exported := true })) s
  thenAlways body (changeScope fun s => settings.foldl (fun s (name, _) =>
    s.alterVariable name fun _ => before.lookup name) s)

/-- Calls a function. -/
def call (run : Runner) (tested : Bool) (body : Script) (args : List String) : Run Unit := do
  let before := (← get).scope
  changeScope fun s => { s.withArguments args with locals := some [], loops := 0 }
  let result ← attempt (run tested body)
  changeScope fun s =>
    let s := (s.locals.getD []).foldl (fun s (name, v) => s.alterVariable name fun _ => v) s
    { s with
      arguments := before.arguments
      locals := before.locals
      loops := before.loops
      optionPlace := before.optionPlace }
  match result with
  | .ok () | .error .leaveFunction => pure ()
  | .error leap => throw leap

/-- What a name stands for, in words. -/
def described (m : Machine) (name : String) : Option String :=
  if (m.scope.functions.lookup name).isSome then some (name ++ " is a shell function")
  else if isSpecial name then some (name ++ " is a special shell builtin")
  else if isBuiltin name then some (name ++ " is a shell builtin")
  else
    match findProgram m.disk (m.scope.valueOf? "PATH") name with
    | .ok p => some (name ++ " is " ++ p)
    | .error _ => none

/-- What is run for a name: the name itself, or the path of a program. -/
def resolved (m : Machine) (name : String) : Option String :=
  if (m.scope.functions.lookup name).isSome || isBuiltin name then some name
  else (findProgram m.disk (m.scope.valueOf? "PATH") name).toOption

/-- Tells what names stand for. -/
def typeNames (names : List String) : Run Unit := do
  leave 0
  names.forM fun name => do
    match described (← get) name with
    | some text => writeText 1 (text ++ "\n")
    | none =>
      writeText 1 (name ++ ": not found\n")
      leave 127

/-- Does something that messages name. -/
def naming (name : String) (body : Run Unit) : Run Unit := do
  let before := (← get).scope.within
  changeScope fun s => { s with within := name ++ ": " }
  thenAlways body (changeScope fun s => { s with within := before })

/-- Does something of which a failure is no more than a code. -/
def contained (body : Run Unit) : Run Unit := do
  match ← attempt body with
  | .ok () => pure ()
  | .error .failed => leave failureCode
  | .error leap => throw leap

/-- Goes on as another program. -/
def replace (run : Runner) : List String → Run Unit
  | [] => leave 0
  | name :: args => naming "exec" do
    program run ⟨name, args⟩
    changeScope fun s => { s with traps := [] }
    throw (.exit (← get).scope.status)

/-- Runs a command of the shell or a program.  The failure of a special command ends the script. -/
def execute (run : Runner) (tested special : Bool) (name : String) (args : List String) :
    Run Unit :=
  match name, builtin? name with
  | "exec", _ => replace run args
  | "type", _ => typeNames args
  | _, some builtin =>
    if special then naming name (builtin run tested args)
    else contained (naming name (builtin run tested args))
  | _, none => program run ⟨name, args⟩

/-- Runs a command that may be said not to be a function. -/
def executeNamed (run : Runner) (tested : Bool) (name : String) (args : List String) : Run Unit :=
  match name, args with
  | "command", [] | "command", ["-v"] => leave 0
  | "command", "-v" :: n :: _ => do
    leave 0
    match resolved (← get) n with
    | some text => writeText 1 (text ++ "\n")
    | none => leave 127
  | "command", "-V" :: names => typeNames names
  | "command", n :: rest => execute run tested false n rest
  | _, _ => execute run tested (isSpecial name) name args

/-- Shows a command before it is run, if that is wanted. -/
def trace (settings : List (String × Word)) (args : List String) : Run Unit := do
  let s := (← get).scope
  if s.has 'x' then
    let shown := settings.map (fun v => v.1 ++ "=" ++ (s.valueOf? v.1).getD "") ++ args
    writeText 2 ((s.valueOf? "PS4").getD "" ++ String.intercalate " " shown ++ "\n")

/-- Runs a simple command. -/
def simple (run : Runner) (tested : Bool) (line : Nat) (settings : List (String × Word))
    (ws : List Word) (rs : List Redirection) : Run Unit := do
  changeScope fun s => { s with line := line, substituted := 0 }
  match ← expandWords run ws with
  | [] =>
    redirected run rs
      (do
        assignAll run settings
        trace settings []
        leave (← get).scope.substituted)
      (pure ())
  | ["exec"] =>
    assignAll run settings
    match ← redirect run rs with
    | none => leave 0
    | some text => fail text
  | name :: args =>
    let function := (← get).scope.functions.lookup name
    let special := isSpecial name
    redirected run rs
      (do
        if special then
          assignAll run settings
          trace settings (name :: args)
          executeNamed run tested name args
        else withSettings run settings do
          trace settings (name :: args)
          match function with
          | some body => call run tested body args
          | none => executeNamed run tested name args)
      (if special then throw .failed else pure ())

/-! ## Loops -/

/-- Does a part of a loop, which tells whether the loop goes on.  Leaps out of other loops around
this one go on. -/
def turn (round : Run Bool) : Run Bool := do
  match ← attempt round with
  | .ok goesOn => return goesOn
  | .error (.leaveLoop 1) => return false
  | .error (.nextRound 1) => return true
  | .error (.leaveLoop (n + 1)) => throw (.leaveLoop n)
  | .error (.nextRound (n + 1)) => throw (.nextRound n)
  | .error leap => throw leap

/-- Does something as a loop. -/
def inLoop (body : Run Unit) : Run Unit := do
  changeScope fun s => { s with loops := s.loops + 1 }
  thenAlways body (changeScope fun s => { s with loops := s.loops - 1 })

/-- Does rounds, so many at the most.  A round is given the code of the one before. -/
def rounds (round : Nat → Run Bool) : Nat → Nat → Run Unit
  | 0, _ => throw (.killed endlessSignal)
  | n + 1, code => do
    if ← turn (round code) then rounds round n (← get).scope.status

/-- Does a round for each value. -/
def eachValue (round : String → Run Unit) : List String → Run Unit
  | [] => pure ()
  | v :: vs => do
    let goesOn ← turn do
      round v
      return true
    if goesOn then eachValue round vs

/-! ## Scripts -/

/-- Does something whose failure ends the script, if that is wanted and the code is not tested. -/
def checked (tested : Bool) (body : Run Unit) : Run Unit := do
  body
  let s := (← get).scope
  if s.has 'e' && !tested && s.status ≠ 0 then throw (.exit s.status)

/-- The text fits one of the patterns. -/
def fitsAny (run : Runner) (text : String) : List Word → Run Bool
  | [] => return false
  | w :: ws => do
    if (← expandPattern run w).fits text.toList then return true else fitsAny run text ws

namespace Script

/-- Runs a script.  The limit bounds the rounds of its loops, and the subject is what its cases are
compared with. -/
def eval (limit : Nat) (run : Runner) (tested : Bool) (subject : String) : Script → Run Unit
  | nothing => pure ()
  | simple line settings ws rs => checked tested (Shell.simple run tested line settings ws rs)
  | sequence first second => do
    eval limit run tested "" first
    eval limit run tested "" second
  | and first second => do
    eval limit run true "" first
    if ← succeeded then eval limit run tested "" second
  | or first second => do
    eval limit run true "" first
    unless ← succeeded do eval limit run tested "" second
  | not body => do
    eval limit run true "" body
    leave (if ← succeeded then 1 else 0)
  | branch condition yes no => do
    eval limit run true "" condition
    if ← succeeded then eval limit run tested "" yes
    else
      leave 0
      eval limit run tested "" no
  | repeated holds condition body => do
    let round (code : Nat) : Run Bool := do
      eval limit run true "" condition
      if (← succeeded) = holds then
        eval limit run tested "" body
        return true
      else
        leave code
        return false
    inLoop (rounds round limit 0)
  | each name ws body => do
    let values ← match ws with
      | some ws => expandWords run ws
      | none => do pure (← get).scope.arguments
    leave 0
    inLoop (eachValue (fun v => do
      assign name v
      eval limit run tested "" body) values)
  | choice w cases => do
    let text ← expandText run w
    eval limit run tested text cases
  | option patterns body others => do
    if ← fitsAny run subject patterns then
      if body matches nothing then leave 0
      eval limit run tested "" body
    else eval limit run tested subject others
  | noOption => leave 0
  | subshell body => checked tested (isolated run (eval limit run tested "" body))
  | pipe first second => checked tested do
    let channel ← newBuffer []
    isolated run do
      changeScope fun s => s.connect 1 (some channel)
      eval limit run tested "" first
    isolated run do
      changeScope fun s => s.connect 0 (some channel)
      eval limit run tested "" second
  | background body => do
    let m ← get
    set { m with started := m.started + 1 }
    isolated run (eval limit run false "" body)
    changeScope fun s => { s with status := 0, jobs := (m.started, s.status) :: s.jobs }
  | function name body => do
    changeScope fun s => { s with
      functions := (name, body) :: s.functions.filter fun f => f.1 ≠ name
      status := 0 }
  | redirected line body rs => do
    changeScope fun s => { s with line := line }
    Shell.redirected run rs (eval limit run tested "" body) (pure ())
  | broken line message => do
    changeScope fun s => { s with line := line }
    fail message

end Script

/-- Runs scripts, so deep in each other at the most. -/
def runner : Nat → Runner
  | 0, _, _ => throw (.killed endlessSignal)
  | n + 1, tested, script => script.eval n (runner n) tested ""

/-- How deep scripts may be run in each other, and how many rounds a loop may have. -/
def runLimit : Nat := 100000

end Pipewright.Shell
