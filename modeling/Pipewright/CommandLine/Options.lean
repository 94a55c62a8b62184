/-!
# Options on a command line

Arguments are options, which start with a hyphen, and others, which stand by position.  An option
has a long name and may have a letter; some options take a value, which is attached or comes next.
No option may be given twice.

Arguments are gone through from the left, and each one is settled before the next one is looked at.
So it counts what comes first: something that is wrong, or an option that asks for a text instead.

* `OptionKind`, `CommandForm`: the options that a command knows, and its other arguments.
* `Refusal`: why a command is not carried out.
* `readArguments`: the options that are given, and the other arguments.
-/

namespace Pipewright.CommandLine

/-- Why arguments are not carried out. -/
inductive Refusal where
  /-- They ask for the help text or for the version. -/
  | textWanted
  /-- They are not understood. -/
  | misused
deriving DecidableEq, Repr

/-- What an option is there for. -/
inductive OptionRole where
  /-- It takes no value. -/
  | flag
  /-- It takes a value, which has to be accepted. -/
  | value (accepts : String → Bool)
  /-- It asks for a text, and nothing else is done. -/
  | text

/-- An option that a command knows. -/
structure OptionKind where
  name : String
  letter : Option Char := none
  role : OptionRole

/-- What a command knows: its options, and for each of its other arguments, what it has to be. -/
structure CommandForm where
  options : List OptionKind
  others : List (String → Bool) := []

/-- An option that is given: its name, and its value if it takes one. -/
abbrev Given := String × Option String

/-- The option is given. -/
def isGiven (given : List Given) (name : String) : Bool :=
  (given.lookup name).isSome

/-- The value of an option that is given. -/
def valueOf? (given : List Given) (name : String) : Option String :=
  (given.lookup name).bind id

/-! ## Options -/

/-- The argument is an option.  A lone hyphen is none. -/
def isOption (argument : String) : Bool :=
  argument.toList.head? = some '-' && argument ≠ "-"

/-- One option more, which has not been given before. -/
def give (given : List Given) (name : String) (value : Option String) :
    Except Refusal (List Given) :=
  if isGiven given name then .error .misused else .ok (given ++ [(name, value)])

/-- One option more with its value, if it takes one. -/
def giveValue (given : List Given) (k : OptionKind) (value : String) :
    Except Refusal (List Given) :=
  match k.role with
  | .value accepts => if accepts value then give given k.name (some value) else .error .misused
  | .flag | .text => .error .misused

/-- Letters in a row: the options that are given with them, and the option whose value comes
next. -/
def readLetters (kinds : List OptionKind) (given : List Given) :
    List Char → Except Refusal (List Given × Option OptionKind)
  | [] => .ok (given, none)
  | c :: cs =>
    match kinds.find? fun k => k.letter = some c with
    | none => .error .misused
    | some k =>
      match k.role, cs with
      | .text, _ => .error .textWanted
      | .flag, cs => do readLetters kinds (← give given k.name none) cs
      | .value _, [] => .ok (given, some k)
      | .value _, '=' :: value => do return (← giveValue given k (String.ofList value), none)
      | .value _, value => do return (← giveValue given k (String.ofList value), none)

/-- A name with what may be attached: the options that are given with it, and the option whose value
comes next. -/
def readName (kinds : List OptionKind) (given : List Given) (argument : List Char) :
    Except Refusal (List Given × Option OptionKind) :=
  let name := String.ofList (argument.takeWhile (· ≠ '='))
  match kinds.find? fun k => k.name = name with
  | none => .error .misused
  | some k =>
    match k.role, argument.dropWhile (· ≠ '=') with
    | .text, [] => .error .textWanted
    | .flag, [] => do return (← give given name none, none)
    | .value _, [] => .ok (given, some k)
    | .value _, _ :: value => do return (← giveValue given k (String.ofList value), none)
    | _, _ => .error .misused

/-- The options that are given with an argument, and the option whose value comes next. -/
def readOption (kinds : List OptionKind) (given : List Given) (argument : String) :
    Except Refusal (List Given × Option OptionKind) :=
  match argument.toList with
  | '-' :: '-' :: cs => readName kinds given cs
  | '-' :: cs => readLetters kinds given cs
  | _ => .error .misused

/-! ## Arguments -/

/-- The arguments are what the other arguments of a command have to be, as far as they go. -/
def readOthers : List (String → Bool) → List String → Except Refusal Unit
  | _, [] => .ok ()
  | [], _ :: _ => .error .misused
  | accepts :: more, argument :: rest =>
    if accepts argument then readOthers more rest else .error .misused

/-- The options that arguments give behind those that are given, and the other arguments, in order.
After two hyphens no argument is an option. -/
def readArguments (kinds : List OptionKind) (others : List (String → Bool)) (given : List Given) :
    List String → Except Refusal (List Given × List String)
  | [] => .ok (given, [])
  | "--" :: rest => do
    readOthers others rest
    return (given, rest)
  | argument :: rest =>
    if isOption argument then
      match readOption kinds given argument, rest with
      | .error refusal, _ => .error refusal
      | .ok (given, none), rest => readArguments kinds others given rest
      | .ok (given, some k), value :: rest =>
        if isOption value then .error .misused
        else do readArguments kinds others (← giveValue given k value) rest
      | .ok (_, some _), [] => .error .misused
    else
      match others with
      | [] => .error .misused
      | accepts :: others => do
        if !accepts argument then throw .misused
        let (given, more) ← readArguments kinds others given rest
        return (given, argument :: more)

/-- The options that arguments of a command give, and its other arguments. -/
def CommandForm.read (s : CommandForm) (arguments : List String) :
    Except Refusal (List Given × List String) :=
  readArguments s.options s.others [] arguments

end Pipewright.CommandLine
