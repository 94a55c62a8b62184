import Pipewright.Json.Scalar

/-!
# Stepping over a value

The value of a key that nobody asked for is stepped over.  Only its grammar is checked: brackets
may be nested to any depth, numbers may be of any size, and escapes may name halves of pairs.

* `skipString`, `skipNumber`: stepping over the scalars.
* `skipValue`: stepping over a value, with the brackets that are open as the state.
-/

namespace Pipewright.Json

namespace Reader

/-- The two kinds of brackets. -/
inductive Bracket where
  | square
  | curly
deriving DecidableEq, Repr

/-- The bracket that closes. -/
def Bracket.closing : Bracket → Char
  | .square => ']'
  | .curly => '\x7d'

/-- The issue of a text that ends between the brackets. -/
def Bracket.atEnd : Bracket → Issue
  | .square => .endInArray
  | .curly => .endInObject

/-- The issue of an item or member that is not followed by a comma or the closing bracket. -/
def Bracket.noComma : Bracket → Issue
  | .square => .noCommaInArray
  | .curly => .noCommaInObject

/-- Steps over an escape after its backslash. -/
def skipEscape : Reader Unit := do
  match ← peek? with
  | none => failHere .endInString
  | some x =>
    if (escaped? x).isSome then advance
    else if x = 'u' then
      advance
      let _ ← readHex
    else throw (.settled .badEscape ((← get).offset + 1))

/-- Steps over a string after its opening quote. -/
def skipString : Reader Unit :=
  iterate (fun (_ : Unit) => do
    match ← peek? with
    | none => failHere .endInString
    | some '"' =>
      advance
      return .inr ()
    | some '\\' =>
      advance
      skipEscape
      return .inl ()
    | some x =>
      if x.toNat < 0x20 then failHere .control
      advance
      return .inl ()) ()

/-- Steps over the byte of a digit, or stops after the byte that stands there instead. -/
def skipDigit : Reader Unit := do
  let c ← get
  match c.rest.head? with
  | none => failHere .badNumber
  | some x => if (digit? x).isSome then advance else throw (.settled .badNumber (c.offset + 1))

/-- Steps over an exponent after its letter. -/
def skipExponent : Reader Unit := do
  match ← peek? with
  | some '+' | some '-' => advance
  | _ => pure ()
  skipDigit
  let _ ← readDigits

/-- Steps over what follows the digits of a number. -/
def skipAfterDigits : Reader Unit := do
  match ← peek? with
  | some 'e' | some 'E' =>
    advance
    skipExponent
  | _ => return ()

/-- Steps over a number after its sign. -/
def skipNumber : Reader Unit := do
  let first ← peek?
  skipDigit
  if first = some '0' then
    if ((← peek?).bind digit?).isSome then failAtNext .badNumber
  else
    let _ ← readDigits
  if (← peek?) = some '.' then
    advance
    if (← readDigits).isEmpty then failAtNext .badNumber
  skipAfterDigits

/-- Steps over a scalar, or over an opening bracket, which is the answer. -/
def skipStart : Reader (Option Bracket) := do
  match ← peekAfterBlanks? with
  | none => failAtNext .endInValue
  | some 'n' => advance; readWord ['u', 'l', 'l']; return none
  | some 't' => advance; readWord ['r', 'u', 'e']; return none
  | some 'f' => advance; readWord ['a', 'l', 's', 'e']; return none
  | some '-' => advance; skipNumber; return none
  | some '"' => advance; skipString; return none
  | some '[' => advance; return some .square
  | some '\x7b' => advance; return some .curly
  | some x =>
    if (digit? x).isSome then
      skipNumber
      return none
    else failAtNext .noValue

/-- Steps over the key of a member and its colon. -/
def skipKey : Reader Unit := do
  match ← peekAfterBlanks? with
  | some '"' => advance
  | some _ => failAtNext .keyNotString
  | none => failAtNext .endInObject
  skipString
  match ← peekAfterBlanks? with
  | some ':' => advance
  | some _ => failAtNext .noColon
  | none => failAtNext .endInObject

/-- Steps over an item or member, as far as the next opening bracket.  The brackets that are then
open are the answer, with whether a comma may follow. -/
def skipElement (inner : Bracket) (outer : List Bracket) : Reader (List Bracket × Bool) := do
  if inner = .curly then skipKey
  match ← skipStart with
  | some b => return (b :: inner :: outer, false)
  | none => return (inner :: outer, true)

/-- Steps over a value. -/
def skipValue : Reader Unit := do
  match ← skipStart with
  | none => return ()
  | some b =>
    iterate (fun (state : List Bracket × Bool) => do
      match state with
      | ([], _) => return .inr ()
      | (inner :: outer, afterElement) =>
        match ← peekAfterBlanks? with
        | none => failAtNext inner.atEnd
        | some x =>
          if x = ',' ∧ afterElement then
            advance
            return .inl (← skipElement inner outer)
          else if x = inner.closing then
            advance
            if outer.isEmpty then return .inr () else return .inl (outer, true)
          else if afterElement then failAtNext inner.noComma
          else return .inl (← skipElement inner outer)) ([b], false)

end Reader

end Pipewright.Json
