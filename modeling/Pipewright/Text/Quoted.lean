import Pipewright.Text.Printable

/-!
# Text quoted in messages

A message that repeats a text of the input puts it in double quotes and shows characters without
a glyph by their code points, so that the message stays on one line.

* `hexDigits`: a number in lower-case hexadecimal digits.
* `quoted`: the text in double quotes.
-/

namespace Pipewright.Text

/-- A number in lower-case hexadecimal digits. -/
def hexDigits (n : Nat) : List Char :=
  Nat.toDigits 16 n

/-- A character as it stands between double quotes. -/
def quotedChar (c : Char) : List Char :=
  match c with
  | '\x00' => ['\\', '0']
  | '\t' => ['\\', 't']
  | '\r' => ['\\', 'r']
  | '\n' => ['\\', 'n']
  | '\\' => ['\\', '\\']
  | '"' => ['\\', '"']
  | c => if isShown c then [c] else ['\\', 'u', '\x7b'] ++ hexDigits c.toNat ++ ['\x7d']

/-- The text in double quotes. -/
def quoted (s : String) : String :=
  String.ofList (['"'] ++ s.toList.flatMap quotedChar ++ ['"'])

end Pipewright.Text
