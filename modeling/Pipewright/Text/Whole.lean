import Pipewright.Text.Pieces

/-!
# Whole numbers in texts

A whole number in a text may be written in decimal digits, in octal digits after a zero, or in
hexadecimal digits after a zero and an `x`.

* `digitsValue`: the number that digits make.
* `natural?`: a text of decimal digits as a number.
* `literalAt?`, `integerAt?`: the whole number that starts a text, with the rest.
-/

namespace Pipewright.Text

/-- The value of a digit, in lower or upper case. -/
def digitValue? (base : Nat) (c : Char) : Option Nat :=
  let n :=
    if '0' ≤ c ∧ c ≤ '9' then some (c.toNat - '0'.toNat)
    else if 'a' ≤ c ∧ c ≤ 'z' then some (c.toNat - 'a'.toNat + 10)
    else if 'A' ≤ c ∧ c ≤ 'Z' then some (c.toNat - 'A'.toNat + 10)
    else none
  n.filter fun n => n < base

/-- The number that digits make. -/
def digitsValue (base : Nat) (ds : List Char) : Nat :=
  ds.foldl (fun n d => n * base + (digitValue? base d).getD 0) 0

/-- The digits at the start of a text, and the rest. -/
def digitSpan (base : Nat) (cs : List Char) : List Char × List Char :=
  cs.span fun c => (digitValue? base c).isSome

/-- The number that a text of decimal digits stands for. -/
def natural? (s : String) : Option Nat :=
  match digitSpan 10 s.toList with
  | (d :: ds, []) => some (digitsValue 10 (d :: ds))
  | _ => none

/-- The number that starts a text, with the rest.  What comes first tells the base. -/
def literalAt? (cs : List Char) : Option (Nat × List Char) :=
  let plain (base : Nat) (cs : List Char) : Option (Nat × List Char) :=
    match digitSpan base cs with
    | ([], _) => none
    | (ds, rest) => some (digitsValue base ds, rest)
  match cs with
  | '0' :: x :: rest =>
    if x = 'x' || x = 'X' then (plain 16 rest).orElse fun _ => some (0, x :: rest)
    else plain 8 cs
  | _ => plain 10 cs

/-- The whole number that starts a text after blanks and a sign, with the rest. -/
def integerAt? (cs : List Char) : Option (Int × List Char) :=
  match cs.dropWhile (·.isWhitespace) with
  | '-' :: rest => (literalAt? rest).map fun (n, rest) => (-(n : Int), rest)
  | '+' :: rest => (literalAt? rest).map fun (n, rest) => ((n : Int), rest)
  | rest => (literalAt? rest).map fun (n, rest) => ((n : Int), rest)

/-- The whole number in decimal digits that a text with blanks around it stands for. -/
def decimalInteger? (s : String) : Option Int :=
  let cs := s.toList.dropWhile (·.isWhitespace)
  let bare := (cs.reverse.dropWhile (·.isWhitespace)).reverse
  match bare with
  | '-' :: rest => (natural? (String.ofList rest)).map fun n => -(n : Int)
  | '+' :: rest => (natural? (String.ofList rest)).map fun n => (n : Int)
  | rest => (natural? (String.ofList rest)).map fun n => (n : Int)

/-! ## Numbers of a fixed width -/

/-- The whole number of sixty-four bits, with a sign, that stands for a number. -/
def signed64 (n : Int) : Int := n.bmod UInt64.size

/-- The number of sixty-four bits, without a sign, that stands for a number. -/
def unsigned64 (n : Int) : Nat := (n % UInt64.size).toNat

/-- The number itself, or the nearest one that has sixty-four bits with a sign. -/
def clamp64 (n : Int) : Int := max Int64.minValue.toInt (min n Int64.maxValue.toInt)

end Pipewright.Text
