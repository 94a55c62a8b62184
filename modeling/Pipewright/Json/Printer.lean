import Pipewright.Json.Value
import Pipewright.Numeral.Shortest
import Pipewright.Text.Pieces
import Pipewright.Text.Quoted

/-!
# Writing JSON

Two layouts are written: the compact one, without any blank, and the indented one, with two
spaces a level, a member or item on each line, and no final line feed.  Members are written in
the order in which they stand.

* `DoubleFormat`, `doubleText`: doubles, positional between `10 ^ -5` and `10 ^ 16`.
* `numberText`, `stringText`: the scalars.
* `Value.compact`, `Value.pretty`: the two layouts.
-/

namespace Pipewright.Json

open Pipewright.Numeral

/-! ## Numbers -/

/-- The layout of a decimal number. -/
structure DoubleFormat where
  /-- The least power of ten of a leading digit written positionally. -/
  leastPlace : Int
  /-- The least power of ten of a leading digit that is too great to be written positionally. -/
  endPlace : Int

/-- Doubles from `10 ^ -5` to below `10 ^ 16` are written positionally, with a digit after the
point even when they are whole; the others have an exponent with its sign. -/
def doubleFormat : DoubleFormat := ⟨-5, 16⟩

/-- The layout of the digits `ds` of the number `0.ds * 10 ^ (place + 1)`. -/
def decimalText (f : DoubleFormat) (ds : List Char) (place : Int) : List Char :=
  if f.leastPlace ≤ place ∧ place < f.endPlace then
    if place < 0 then
      ['0', '.'] ++ List.replicate (-place - 1).toNat '0' ++ ds
    else
      let whole := place.toNat + 1
      let after := ds.drop whole
      ds.take whole ++ List.replicate (whole - ds.length) '0' ++ ['.'] ++
        (if after.isEmpty then ['0'] else after)
  else
    let after := ds.drop 1
    ds.take 1 ++ (if after.isEmpty then [] else '.' :: after) ++ ['e'] ++
      (if place < 0 then ['-'] else ['+']) ++ Nat.toDigits 10 place.natAbs

/-- The text of a magnitude: the shortest decimal that reads back. -/
def magnitudeText (x : Magnitude) : List Char :=
  if x.isZero then ['0', '.', '0']
  else
    let d := x.shortest
    let ds := Nat.toDigits 10 d.digits
    decimalText doubleFormat ds (d.exponent + Int.ofNat ds.length - 1)

/-- The text of a double. -/
def doubleText (d : Double) : String :=
  String.ofList ((if d.negative then ['-'] else []) ++ magnitudeText d.magnitude)

/-- The text of a number. -/
def numberText : Number → String
  | .natural n => Text.decimal n
  | .negative n => "-" ++ Text.decimal n
  | .double d => doubleText d

/-! ## Strings -/

/-- A character as it stands in a JSON string.  Only the quote, the backslash and the controls
below U+0020 are escaped. -/
def stringChar (c : Char) : List Char :=
  match c with
  | '"' => ['\\', '"']
  | '\\' => ['\\', '\\']
  | '\x08' => ['\\', 'b']
  | '\x0c' => ['\\', 'f']
  | '\n' => ['\\', 'n']
  | '\r' => ['\\', 'r']
  | '\t' => ['\\', 't']
  | c =>
    if c.toNat < 0x20 then
      ['\\', 'u', '0', '0', Nat.digitChar (c.toNat / 16), Nat.digitChar (c.toNat % 16)]
    else [c]

/-- A text as a JSON string. -/
def stringText (s : String) : String :=
  String.ofList (['"'] ++ s.toList.flatMap stringChar ++ ['"'])

/-! ## Values -/

mutual

/-- The compact layout of a value. -/
def Value.compact : Value → String
  | .null => "null"
  | .bool true => "true"
  | .bool false => "false"
  | .number n => numberText n
  | .string s => stringText s
  | .array items => "[" ++ compactItems items ++ "]"
  | .object members => "\x7b" ++ compactMembers members ++ "\x7d"

/-- The items of an array, between commas. -/
def compactItems : List Value → String
  | [] => ""
  | [v] => v.compact
  | v :: w :: rest => v.compact ++ "," ++ compactItems (w :: rest)

/-- The members of an object, between commas. -/
def compactMembers : List (String × Value) → String
  | [] => ""
  | [(k, v)] => stringText k ++ ":" ++ v.compact
  | (k, v) :: m :: rest => stringText k ++ ":" ++ v.compact ++ "," ++ compactMembers (m :: rest)

end

/-- A new line at a level of indentation. -/
def newLine (level : Nat) : String :=
  String.ofList ('\n' :: List.replicate (2 * level) ' ')

mutual

/-- The indented layout of a value that stands at a level. -/
def Value.prettyAt (level : Nat) : Value → String
  | .array [] => "[]"
  | .array (v :: items) =>
    "[" ++ newLine (level + 1) ++ prettyItems (level + 1) (v :: items) ++ newLine level ++ "]"
  | .object [] => "\x7b\x7d"
  | .object (m :: members) =>
    "\x7b" ++ newLine (level + 1) ++ prettyMembers (level + 1) (m :: members) ++ newLine level ++
      "\x7d"
  | .null => "null"
  | .bool true => "true"
  | .bool false => "false"
  | .number n => numberText n
  | .string s => stringText s

/-- The items of an array, each on a line of its own. -/
def prettyItems (level : Nat) : List Value → String
  | [] => ""
  | [v] => v.prettyAt level
  | v :: w :: rest => v.prettyAt level ++ "," ++ newLine level ++ prettyItems level (w :: rest)

/-- The members of an object, each on a line of its own. -/
def prettyMembers (level : Nat) : List (String × Value) → String
  | [] => ""
  | [(k, v)] => stringText k ++ ": " ++ v.prettyAt level
  | (k, v) :: m :: rest =>
    stringText k ++ ": " ++ v.prettyAt level ++ "," ++ newLine level ++
      prettyMembers level (m :: rest)

end

/-- The indented layout of a value. -/
def Value.pretty (v : Value) : String :=
  v.prettyAt 0

end Pipewright.Json
