import Pipewright.Json.Printer

/-!
# What can be wrong with a JSON text

A text is refused for its grammar or because a value has not the shape that is wanted where it
stands.  Either way one issue is reported, with the place where the reader stood: the line,
counted from one, and the number of bytes read on that line.

* `Found`: what stands where something else was wanted.
* `Issue`, `Issue.message`: the issues and their wording.
* `Position`, `positionAt`: places in a text.
-/

namespace Pipewright.Json

open Pipewright.Numeral

/-- What stands in the text, as far as a message names it. -/
inductive Found where
  | null
  | bool (b : Bool)
  | number (n : Number)
  | string (s : String)
  | array
  | object
deriving DecidableEq, Repr

/-- The wording of what stands in the text. -/
def Found.message : Found → String
  | .null => "null"
  | .bool true => "boolean `true`"
  | .bool false => "boolean `false`"
  | .number (.double d) => "floating point `" ++ doubleText d ++ "`"
  | .number n => "integer `" ++ numberText n ++ "`"
  | .string s => "string " ++ Text.quoted s
  | .array => "sequence"
  | .object => "map"

/-- What a value is, as far as a message names it. -/
def Value.found : Value → Found
  | .null => .null
  | .bool b => .bool b
  | .number n => .number n
  | .string s => .string s
  | .array _ => .array
  | .object _ => .object

/-- The issues of a JSON text or value. -/
inductive Issue where
  /-- The text ends where a value should stand. -/
  | endInValue
  /-- The text ends inside an array. -/
  | endInArray
  /-- The text ends inside an object. -/
  | endInObject
  /-- The text ends inside a string. -/
  | endInString
  /-- No value starts here. -/
  | noValue
  /-- A word other than `null`, `true` and `false`. -/
  | badWord
  | badNumber
  | numberOutOfRange
  | keyNotString
  | noColon
  | noCommaInArray
  | noCommaInObject
  | trailingComma
  | trailingText
  /-- A control character stands in a string. -/
  | control
  | badEscape
  /-- A half of a surrogate pair stands alone. -/
  | loneSurrogate
  /-- The first half of a surrogate pair is not followed by an escape. -/
  | halfPair
  /-- Too many brackets are open. -/
  | tooDeep
  /-- A value of another kind is wanted. -/
  | wrongType (found : Found) (wanted : String)
  /-- The kind is the wanted one, the value is not. -/
  | wrongValue (found : Found) (wanted : String)
  /-- An array has not the number of items that is wanted. -/
  | wrongLength (length : Nat) (wanted : String)
  | missingField (name : String)
  | duplicateField (name : String)
  /-- A word that is none of the words of a fixed list. -/
  | unknownWord (word : String) (known : List String)
  /-- A setting whose value is an array or an object. -/
  | notScalar (value : Value)
  /-- Any other issue, in its own words. -/
  | stated (text : String)
deriving Repr

/-- A name in back quotes. -/
def backquoted (name : String) : String := "`" ++ name ++ "`"

/-- The wording of an issue. -/
def Issue.message : Issue → String
  | .endInValue => "EOF while parsing a value"
  | .endInArray => "EOF while parsing a list"
  | .endInObject => "EOF while parsing an object"
  | .endInString => "EOF while parsing a string"
  | .noValue => "expected value"
  | .badWord => "expected ident"
  | .badNumber => "invalid number"
  | .numberOutOfRange => "number out of range"
  | .keyNotString => "key must be a string"
  | .noColon => "expected `:`"
  | .noCommaInArray => "expected `,` or `]`"
  | .noCommaInObject => "expected `,` or `\x7d`"
  | .trailingComma => "trailing comma"
  | .trailingText => "trailing characters"
  | .control => "control character (\\u0000-\\u001F) found while parsing a string"
  | .badEscape => "invalid escape"
  | .loneSurrogate => "lone leading surrogate in hex escape"
  | .halfPair => "unexpected end of hex escape"
  | .tooDeep => "recursion limit exceeded"
  | .wrongType found wanted => "invalid type: " ++ found.message ++ ", expected " ++ wanted
  | .wrongValue found wanted => "invalid value: " ++ found.message ++ ", expected " ++ wanted
  | .wrongLength length wanted =>
    "invalid length " ++ Text.decimal length ++ ", expected " ++ wanted
  | .missingField name => "missing field " ++ backquoted name
  | .duplicateField name => "duplicate field " ++ backquoted name
  | .unknownWord word known =>
    "unknown variant " ++ backquoted word ++ ", expected one of " ++
      String.intercalate ", " (known.map backquoted)
  | .notScalar value => "expected a scalar env value, found " ++ value.compact
  | .stated text => text

/-! ## Places -/

/-- A place in a text: a line, counted from one, and a number of bytes on it. -/
structure Position where
  line : Nat
  column : Nat
deriving DecidableEq, Repr

/-- The place after the first `offset` bytes of a text: lines end at line feeds, and the column
counts the bytes since the last one. -/
def positionAt (text : List Char) (offset : Nat) : Position :=
  let rec go (line lineStart here : Nat) : List Char → Position
    | [] => ⟨line, offset - lineStart⟩
    | c :: cs =>
      if offset ≤ here then ⟨line, offset - lineStart⟩
      else
        let next := here + c.utf8Size
        if c = '\n' then go (line + 1) next next cs else go line lineStart next cs
  go 1 0 0 text

/-- An issue at its place in a text. -/
structure Located where
  issue : Issue
  position : Position
deriving Repr

/-- The wording of an issue with its place. -/
def Located.message (e : Located) : String :=
  e.issue.message ++ " at line " ++ Text.decimal e.position.line ++ " column " ++
    Text.decimal e.position.column

end Pipewright.Json
