import Pipewright.Json.Cursor

/-!
# Reading strings, words and numbers

A string or a number is read for its value.  Escapes in a string name characters by their UTF-16
units, so two escapes may name one character; a half of such a pair that stands alone is refused.
A number without fraction and exponent that fits in 64 bits is kept as a whole number.  Any other
number is a double: of its digits those that fit in 64 bits are taken as a whole number, which is
then scaled by its power of ten.

* `readString`, `readWord`, `readNumber`: readers for what follows the first character.
* `Digits`: the whole number and the power of ten that stand for a run of digits.
-/

namespace Pipewright.Json

open Pipewright.Numeral

namespace Reader

/-! ## Strings -/

/-- The value of a hexadecimal digit. -/
def hexValue? (c : Char) : Option Nat :=
  let n := c.toNat
  if 0x30 ≤ n && n ≤ 0x39 then some (n - 0x30)
  else if 0x41 ≤ n && n ≤ 0x46 then some (n - 0x37)
  else if 0x61 ≤ n && n ≤ 0x66 then some (n - 0x57)
  else none

/-- The number of four hexadecimal digits at the start of a text. -/
def fourHexDigits? : List Char → Option Nat
  | a :: b :: c :: d :: _ => do
    let a ← hexValue? a
    let b ← hexValue? b
    let c ← hexValue? c
    let d ← hexValue? d
    return ((a * 16 + b) * 16 + c) * 16 + d
  | _ => none

/-- Reads the four hexadecimal digits of an escape.  The issue of a text that is too short for
them stands at its end, and that of other characters after four bytes. -/
def readHex : Reader Nat := do
  let c ← get
  if c.left < 4 then throw (.settled .endInString c.size)
  match fourHexDigits? c.rest with
  | some n =>
    set { c with rest := c.rest.drop 4, offset := c.offset + 4 }
    return n
  | none => throw (.settled .badEscape (c.offset + 4))

/-- The units of UTF-16 that come first in a pair. -/
def isFirstHalf (n : Nat) : Bool := 0xD800 ≤ n && n ≤ 0xDBFF

/-- The units of UTF-16 that come second in a pair. -/
def isSecondHalf (n : Nat) : Bool := 0xDC00 ≤ n && n ≤ 0xDFFF

/-- The character that a pair of units names. -/
def pairedChar (first second : Nat) : Char :=
  Char.ofNat (0x10000 + (first - 0xD800) * 0x400 + (second - 0xDC00))

/-- Steps over a character that the second half of a pair needs, or stops after one byte. -/
def expectInPair (x : Char) : Reader Unit := do
  match ← peek? with
  | none => failHere .endInString
  | some y =>
    if y = x then advance
    else throw (.settled .halfPair ((← get).offset + 1))

/-- Reads the digits of a `\u` escape, and a second escape when the first one names half a pair. -/
def readUnit : Reader Char := do
  let n ← readHex
  if isSecondHalf n then failHere .loneSurrogate
  else if isFirstHalf n then
    expectInPair '\\'
    expectInPair 'u'
    let m ← readHex
    if isSecondHalf m then return pairedChar n m
    else failHere .loneSurrogate
  else return Char.ofNat n

/-- The character that a letter names after a backslash. -/
def escaped? : Char → Option Char
  | '"' => some '"'
  | '\\' => some '\\'
  | '/' => some '/'
  | 'b' => some '\x08'
  | 'f' => some '\x0c'
  | 'n' => some '\n'
  | 'r' => some '\r'
  | 't' => some '\t'
  | _ => none

/-- Reads an escape after its backslash. -/
def readEscape : Reader Char := do
  match ← peek? with
  | none => failHere .endInString
  | some x =>
    match escaped? x with
    | some y =>
      advance
      return y
    | none =>
      if x = 'u' then
        advance
        readUnit
      else throw (.settled .badEscape ((← get).offset + 1))

/-- Reads a string after its opening quote. -/
def readString : Reader String :=
  iterate (fun (soFar : List Char) => do
    match ← peek? with
    | none => failHere .endInString
    | some '"' =>
      advance
      return .inr (String.ofList soFar.reverse)
    | some '\\' =>
      advance
      return .inl ((← readEscape) :: soFar)
    | some x =>
      advance
      if x.toNat < 0x20 then failHere .control
      else return .inl (x :: soFar)) []

/-! ## Words -/

/-- Reads the letters of a word. -/
def readWord : List Char → Reader Unit
  | [] => return ()
  | x :: word => do
    match ← peek? with
    | none => failHere .endInValue
    | some y =>
      if y = x then
        advance
        readWord word
      else throw (.settled .badWord ((← get).offset + 1))

/-! ## Numbers -/

/-- The value of a decimal digit. -/
def digit? (c : Char) : Option Nat :=
  if c.isDigit then some (c.toNat - 0x30) else none

/-- Reads decimal digits as long as there are any. -/
def readDigits : Reader (List Nat) := do
  let c ← get
  let ds := (c.rest.takeWhile Char.isDigit).filterMap digit?
  set { c with rest := c.rest.drop ds.length, offset := c.offset + ds.length }
  return ds

/-- The whole numbers that fit in 64 bits. -/
def fits (n : Nat) : Bool := n < UInt64.size

/-- A whole number times a power of ten. -/
structure Digits where
  significand : Nat
  exponent : Int
  /-- Some digit has been left out, for the number is too great for 64 bits. -/
  shortened : Bool

/-- The digits before the point.  From the first one that no longer fits on, every digit counts
as a power of ten. -/
def Digits.ofWhole (ds : List Nat) : Digits :=
  ds.foldl (fun x d =>
    if !x.shortened && fits (x.significand * 10 + d) then
      { x with significand := x.significand * 10 + d }
    else { x with exponent := x.exponent + 1, shortened := true }) ⟨0, 0, false⟩

/-- The digits after the point, up to the first one that no longer fits. -/
def Digits.addFraction (x : Digits) : List Nat → Digits
  | [] => x
  | d :: ds =>
    if fits (x.significand * 10 + d) then
      Digits.addFraction
        { x with significand := x.significand * 10 + d, exponent := x.exponent - 1 } ds
    else x

/-- The greatest exponent that is read as a number. -/
def maxWrittenExponent : Nat := (1 <<< 31) - 1

/-- The double of a significand scaled by a power of ten. -/
def scaled (negative : Bool) (significand : Nat) (exponent : Int) : Reader Number := do
  match Magnitude.ofScaled? significand exponent with
  | some x => return .double ⟨negative, x⟩
  | none => failHere .numberOutOfRange

/-- Reads an exponent after its letter.  An exponent that is too great to be read as a number
makes the number zero when it is negative or the significand is zero. -/
def readExponent (negative : Bool) (x : Digits) : Reader Number := do
  let down ← match ← peek? with
    | some '+' => advance; pure false
    | some '-' => advance; pure true
    | _ => pure false
  match ← peek? with
  | none => failHere .endInValue
  | some y =>
    match digit? y with
    | none => throw (.settled .badNumber ((← get).offset + 1))
    | some d =>
      advance
      iterate (fun (n : Nat) => do
        match (← peek?).bind digit? with
        | none =>
          let e : Int := if down then x.exponent - n else x.exponent + n
          return .inr (← scaled negative x.significand e)
        | some d =>
          advance
          if n * 10 + d ≤ maxWrittenExponent then return .inl (n * 10 + d)
          else if x.significand ≠ 0 ∧ !down then failHere .numberOutOfRange
          else
            let _ ← readDigits
            return .inr (.double ⟨negative, Magnitude.zero⟩)) d

/-- Reads what follows the digits of a fraction. -/
def readAfterFraction (negative : Bool) (x : Digits) : Reader Number := do
  match ← peek? with
  | some 'e' | some 'E' =>
    advance
    readExponent negative x
  | _ => scaled negative x.significand x.exponent

/-- Reads a fraction after its point. -/
def readFraction (negative : Bool) (x : Digits) : Reader Number := do
  let ds ← readDigits
  if ds.isEmpty then
    match ← peek? with
    | none => failAtNext .endInValue
    | some _ => failAtNext .badNumber
  else readAfterFraction negative (x.addFraction ds)

/-- The number of a run of digits without fraction and exponent. -/
def wholeNumber (negative : Bool) (x : Digits) : Reader Number := do
  if x.shortened then scaled negative x.significand x.exponent
  else if !negative then return .natural x.significand
  else if x.significand ≠ 0 ∧ x.significand ≤ 1 <<< 63 then return .negative x.significand
  else scaled true x.significand 0

/-- Reads what follows the digits before the point. -/
def readAfterWhole (negative : Bool) (x : Digits) : Reader Number := do
  match ← peek? with
  | some '.' =>
    advance
    readFraction negative x
  | some 'e' | some 'E' =>
    advance
    readExponent negative x
  | _ => wholeNumber negative x

/-- Reads a number after its sign.  A zero stands alone before the point. -/
def readNumber (negative : Bool) : Reader Number := do
  match ← peek? with
  | none => failHere .endInValue
  | some '0' =>
    advance
    if ((← peek?).bind digit?).isSome then failAtNext .badNumber
    else readAfterWhole negative ⟨0, 0, false⟩
  | some x =>
    if (digit? x).isSome then readAfterWhole negative (Digits.ofWhole (← readDigits))
    else throw (.settled .badNumber ((← get).offset + 1))

end Reader

end Pipewright.Json
