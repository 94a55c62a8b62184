/-!
# Text from any bytes

What a program writes is taken as UTF-8.  Bytes that are none become the replacement character:
one for each byte that starts nothing, and one for each character that is broken off.

* `Utf8Partial`, `utf8Start`, `utf8Next`: reading byte by byte.
* `fromBytesLossy`: the text of any bytes.
-/

namespace Pipewright.Text

/-- What stands for bytes that are no text. -/
def replacement : Char := '\ufffd'

/-- The middle of a character: its bits so far, the number of bytes that it still takes, and the
least and greatest next byte. -/
structure Utf8Partial where
  bits : Nat
  wanted : Nat
  least : Nat
  greatest : Nat
deriving DecidableEq, Repr

/-- What a byte that follows no partial character begins, or the character that it is. -/
def utf8Start (b : Nat) : List Char × Option Utf8Partial :=
  if b < 0x80 then ([Char.ofNat b], none)
  else if 0xC2 ≤ b ∧ b ≤ 0xDF then ([], some ⟨b - 0xC0, 1, 0x80, 0xBF⟩)
  else if b = 0xE0 then ([], some ⟨0, 2, 0xA0, 0xBF⟩)
  else if b = 0xED then ([], some ⟨0xD, 2, 0x80, 0x9F⟩)
  else if 0xE1 ≤ b ∧ b ≤ 0xEF then ([], some ⟨b - 0xE0, 2, 0x80, 0xBF⟩)
  else if b = 0xF0 then ([], some ⟨0, 3, 0x90, 0xBF⟩)
  else if 0xF1 ≤ b ∧ b ≤ 0xF3 then ([], some ⟨b - 0xF0, 3, 0x80, 0xBF⟩)
  else if b = 0xF4 then ([], some ⟨4, 3, 0x80, 0x8F⟩)
  else ([replacement], none)

/-- What a byte makes of a partial character. -/
def utf8Next (p : Utf8Partial) (b : Nat) : List Char × Option Utf8Partial :=
  if p.least ≤ b ∧ b ≤ p.greatest then
    let bits := p.bits * 64 + (b - 0x80)
    if p.wanted = 1 then ([Char.ofNat bits], none)
    else ([], some ⟨bits, p.wanted - 1, 0x80, 0xBF⟩)
  else
    let (cs, q) := utf8Start b
    (replacement :: cs, q)

/-- The characters of bytes that follow a partial character. -/
def charsFrom : Option Utf8Partial → List UInt8 → List Char
  | none, [] => []
  | some _, [] => [replacement]
  | state, b :: bs =>
    let (cs, next) := match state with
      | none => utf8Start b.toNat
      | some p => utf8Next p b.toNat
    cs ++ charsFrom next bs

/-- The text of any bytes. -/
def fromBytesLossy (bytes : List UInt8) : String :=
  String.ofList (charsFrom none bytes)

end Pipewright.Text
