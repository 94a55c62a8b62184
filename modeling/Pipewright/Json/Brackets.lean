import Pipewright.Json.Skip

/-!
# Reading arrays, objects and whole values

Arrays and objects are read item by item and member by member; what is done with an item or a
member is up to the caller.  An open fault from inside is settled by the brackets around it: the
reader first tries to step over what closes them, and the place to report is where it then stands.

* `readItems`, `readMembers`: what stands between brackets.
* `inSquare`, `inCurly`: the brackets themselves, with the limit on their depth.
* `readValue`: a value of any shape.
-/

namespace Pipewright.Json

namespace Reader

variable {α σ : Type}

/-! ## Arrays -/

/-- Whether another item follows.  The first item is not preceded by a comma. -/
def anotherItem (first : Bool) : Reader Bool := do
  match ← peekAfterBlanks? with
  | none => failAtNext .endInArray
  | some ']' => return false
  | some x =>
    if first then return true
    else if x = ',' then
      advance
      match ← peekAfterBlanks? with
      | some ']' => failAtNext .trailingComma
      | some _ => return true
      | none => failAtNext .endInValue
    else failAtNext .noCommaInArray

/-- Reads the items of an array. -/
def readItems (item : Reader α) : Reader (List α) :=
  iterate (fun (soFar : List α) => do
    if ← anotherItem soFar.isEmpty then return .inl ((← item) :: soFar)
    else return .inr soFar.reverse) []

/-- Steps over the bracket that closes an array. -/
def closeSquare : Reader Unit := do
  match ← peekAfterBlanks? with
  | some ']' => advance
  | some ',' =>
    advance
    match ← peekAfterBlanks? with
    | some ']' => failAtNext .trailingComma
    | _ => failAtNext .trailingText
  | some _ => failAtNext .trailingText
  | none => failAtNext .endInArray

/-- Where `closeSquare` leaves the cursor, be it a success or not. -/
def afterSquare (c : Cursor) : Cursor :=
  let c := c.skipBlanks
  match c.accept? ']', c.accept? ',' with
  | some d, _ => d
  | none, some d => d.skipBlanks
  | none, none => c

/-! ## Objects -/

/-- Whether another member follows. -/
def anotherMember (first : Bool) : Reader Bool := do
  match ← peekAfterBlanks? with
  | none => failAtNext .endInObject
  | some '\x7d' => return false
  | some x =>
    if first then
      if x = '"' then return true else failAtNext .keyNotString
    else if x = ',' then
      advance
      match ← peekAfterBlanks? with
      | some '"' => return true
      | some '\x7d' => failAtNext .trailingComma
      | some _ => failAtNext .keyNotString
      | none => failAtNext .endInValue
    else failAtNext .noCommaInObject

/-- Steps over the colon after a key. -/
def readColon : Reader Unit := do
  match ← peekAfterBlanks? with
  | some ':' => advance
  | some _ => failAtNext .noColon
  | none => failAtNext .endInObject

/-- Reads the members of an object.  `member` gets the key and reads on from there. -/
def readMembers (member : String → σ → Reader σ) (s : σ) : Reader σ :=
  iterate (fun (state : σ × Bool) => do
    if ← anotherMember state.2 then
      advance
      let key ← readString
      return .inl (← member key state.1, false)
    else return .inr state.1) (s, true)

/-- Steps over the bracket that closes an object. -/
def closeCurly : Reader Unit := do
  match ← peekAfterBlanks? with
  | some '\x7d' => advance
  | some ',' => failAtNext .trailingComma
  | some _ => failAtNext .trailingText
  | none => failAtNext .endInObject

/-- Where `closeCurly` leaves the cursor, be it a success or not. -/
def afterCurly (c : Cursor) : Cursor :=
  let c := c.skipBlanks
  (c.accept? '\x7d').getD c

/-! ## Brackets -/

/-- Reads an array at its opening bracket.  `depth` brackets more may be open. -/
def inSquare (depth : Nat) (body : Nat → Reader α) : Reader α :=
  match depth with
  | 0 => failAtNext .tooDeep
  | d + 1 => do
    advance
    settling afterSquare do
      let a ← body d
      closeSquare
      return a

/-- Reads an object at its opening bracket.  `depth` brackets more may be open. -/
def inCurly (depth : Nat) (body : Nat → Reader α) : Reader α :=
  match depth with
  | 0 => failAtNext .tooDeep
  | d + 1 => do
    advance
    settling afterCurly do
      let a ← body d
      closeCurly
      return a

/-- Reads a value of any shape.  `depth` brackets more may be open. -/
def readValue (depth : Nat) : Reader Value := do
  match ← peekAfterBlanks? with
  | none => failAtNext .endInValue
  | some 'n' => advance; readWord ['u', 'l', 'l']; return .null
  | some 't' => advance; readWord ['r', 'u', 'e']; return .bool true
  | some 'f' => advance; readWord ['a', 'l', 's', 'e']; return .bool false
  | some '-' => advance; return .number (← readNumber true)
  | some '"' => advance; return .string (← readString)
  | some '[' =>
    match depth with
    | 0 => failAtNext .tooDeep
    | d + 1 => inSquare (d + 1) fun _ => return .array (← readItems (readValue d))
  | some '\x7b' =>
    match depth with
    | 0 => failAtNext .tooDeep
    | d + 1 => inCurly (d + 1) fun _ => do
      let members ← readMembers (fun key (soFar : List (String × Value)) => do
        readColon
        return putKey soFar key (← readValue d)) []
      return .object members
  | some x =>
    if (digit? x).isSome then return .number (← readNumber false)
    else failAtNext .noValue

/-- Nothing but blanks is left. -/
def endOfText : Reader Unit := do
  match ← peekAfterBlanks? with
  | none => return ()
  | some _ => failAtNext .trailingText

end Reader

end Pipewright.Json
