import Pipewright.Keyed
import Pipewright.Numeral.Double

/-!
# JSON values

Pipeline documents, notebooks, kernel listings, run requests and the run registry are all JSON.
A value that the program keeps without knowing its shape is a `Value`; its objects list their
members in the order of their keys, each key once.

* `Number`: 64-bit whole numbers are kept as such, every other number is a double.
* `Value`: the six kinds of JSON value.
* `Value.member?`, `Value.at?`: looking into objects.
-/

namespace Pipewright.Json

open Pipewright.Numeral

/-- A JSON number.  `negative n` is the whole number `-n`. -/
inductive Number where
  | natural (n : Nat)
  | negative (n : Nat)
  | double (d : Double)
deriving DecidableEq, Repr, Inhabited

/-- A JSON value.  The members of an object stand in the order of their keys. -/
inductive Value where
  | null
  | bool (b : Bool)
  | number (n : Number)
  | string (s : String)
  | array (items : List Value)
  | object (members : List (String × Value))
deriving Repr, Inhabited, BEq

namespace Value

/-- The value of a key, when the value is an object that has the key. -/
def member? (v : Value) (key : String) : Option Value :=
  match v with
  | .object members => members.lookup key
  | _ => none

/-- The value at the end of a path of keys. -/
def at? (v : Value) : List String → Option Value
  | [] => some v
  | key :: path => (v.member? key).bind fun w => w.at? path

/-- The text of a string value. -/
def text? : Value → Option String
  | .string s => some s
  | _ => none

end Value

end Pipewright.Json
