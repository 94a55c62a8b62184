import Pipewright.Text.Whole

/-!
# What `echo` and `printf` write

Both take escapes, and `printf` fills values into a format.

* `escapedBytes`: a text with its escapes replaced.
* `echoBytes`: what `echo` writes.
* `Formatted`, `printf`: what `printf` writes, and what it finds wrong.
-/

namespace Pipewright.Shell

/-- The bytes of a character. -/
def charBytes (c : Char) : List UInt8 :=
  (String.singleton c).toUTF8.toList

/-- The bytes of a text. -/
def textBytes (s : String) : List UInt8 :=
  s.toUTF8.toList

/-! ## Escapes -/

/-- The byte that octal digits make, so many at the most, with the rest. -/
def octalAt (count : Nat) (cs : List Char) : UInt8 × List Char :=
  let ds := (Text.digitSpan 8 (cs.take count)).1
  ((Text.digitsValue 8 ds).toUInt8, cs.drop ds.length)

/-- The character that a letter stands for after a backslash. -/
def escapeLetter? : Char → Option Char
  | 'a' => some '\x07'
  | 'b' => some '\x08'
  | 'f' => some '\x0c'
  | 'n' => some '\n'
  | 'r' => some '\r'
  | 't' => some '\t'
  | 'v' => some '\x0b'
  | '\\' => some '\\'
  | _ => none

/-- What stands for the characters after a backslash, with the rest.  An escape that means nothing
stays as it is. -/
def escapeAt : List Char → List UInt8 × List Char
  | [] => ([92], [])
  | c :: cs =>
    match escapeLetter? c with
    | some e => (charBytes e, cs)
    | none =>
      if '0' ≤ c ∧ c ≤ '7' then
        let (b, rest) := octalAt 3 (c :: cs)
        ([b], rest)
      else ([92], c :: cs)

/-- The bytes of a text with its escapes replaced, and whether it says that nothing more is to be
written.  An octal number may have a zero in front of its three digits.  The fuel is the number of
characters. -/
def escapedFrom : Nat → List Char → List UInt8 × Bool
  | 0, _ => ([], false)
  | _, [] => ([], false)
  | _ + 1, '\\' :: 'c' :: _ => ([], true)
  | n + 1, '\\' :: '0' :: cs =>
    let (b, rest) := octalAt 3 cs
    let (bs, ended) := escapedFrom n rest
    (b :: bs, ended)
  | n + 1, '\\' :: cs =>
    let (e, rest) := escapeAt cs
    let (bs, ended) := escapedFrom n rest
    (e ++ bs, ended)
  | n + 1, c :: cs =>
    let (bs, ended) := escapedFrom n cs
    (charBytes c ++ bs, ended)

/-- The bytes of a text with its escapes replaced, and whether it says that nothing more is to be
written. -/
def escapedBytes (s : String) : List UInt8 × Bool :=
  escapedFrom (s.toList.length + 1) s.toList

/-- What `echo` writes. -/
def echoBytes : List String → List UInt8
  | "-n" :: args => (escapedBytes (String.intercalate " " args)).1
  | args =>
    let (bs, ended) := escapedBytes (String.intercalate " " args)
    if ended then bs else bs ++ [10]

/-! ## Formats -/

/-- How a value is to be shown: what stands between the percent sign and the letter. -/
structure Layout where
  toLeft : Bool := false
  zeros : Bool := false
  plus : Bool := false
  blank : Bool := false
  alternative : Bool := false
  width : Nat := 0
  /-- The width is an argument of its own. -/
  widthGiven : Bool := false
  precision : Option Nat := none
deriving DecidableEq, Repr

/-- A piece of a format. -/
inductive FormatPiece where
  | bytes (bs : List UInt8)
  | value (layout : Layout) (letter : Char)
  /-- A percent sign with what follows it, which means nothing. -/
  | unknown (text : String)
deriving Repr

/-- The layout with a flag. -/
def Layout.withFlag (l : Layout) (flag : Char) : Layout :=
  if flag = '-' then { l with toLeft := true }
  else if flag = '0' then { l with zeros := true }
  else if flag = '+' then { l with plus := true }
  else if flag = ' ' then { l with blank := true }
  else { l with alternative := true }

/-- The letters that show values. -/
def valueLetters : List Char := ['d', 'i', 'u', 'o', 'x', 'X', 'c', 's', 'b']

/-- The piece after a percent sign, with the rest. -/
def valueAt (cs : List Char) : FormatPiece × List Char :=
  let (flags, afterFlags) := cs.span fun c => ['-', '0', '+', ' ', '#'].contains c
  let widthGiven := afterFlags.head? = some '*'
  let (width, afterWidth) := Text.digitSpan 10 (if widthGiven then afterFlags.tail else afterFlags)
  let (precision, afterPrecision) := match afterWidth with
    | '.' :: rest =>
      let (ds, rest) := Text.digitSpan 10 rest
      (some (Text.digitsValue 10 ds), rest)
    | rest => (none, rest)
  match afterPrecision with
  | c :: rest =>
    if valueLetters.contains c then
      let layout := flags.foldl Layout.withFlag
        { width := Text.digitsValue 10 width, widthGiven := widthGiven, precision := precision }
      (.value layout c, rest)
    else (.unknown (String.ofList ('%' :: cs.take (cs.length - rest.length))), rest)
  | [] => (.unknown (String.ofList ('%' :: cs)), [])

/-- The pieces of a format.  The fuel is the number of characters. -/
def piecesFrom : Nat → List Char → List FormatPiece
  | 0, _ => []
  | _, [] => []
  | n + 1, '%' :: '%' :: cs => .bytes [37] :: piecesFrom n cs
  | n + 1, '%' :: cs =>
    let (piece, rest) := valueAt cs
    piece :: piecesFrom n rest
  | n + 1, '\\' :: cs =>
    let (bs, rest) := escapeAt cs
    .bytes bs :: piecesFrom n rest
  | n + 1, c :: cs => .bytes (charBytes c) :: piecesFrom n cs

/-- The pieces of a format. -/
def formatPieces (format : String) : List FormatPiece :=
  piecesFrom (format.toList.length + 1) format.toList

/-! ## Values -/

/-- Bytes that take up a width. -/
def Layout.fill (l : Layout) (bs : List UInt8) : List UInt8 :=
  let blanks := List.replicate (l.width - bs.length) 32
  if l.toLeft then bs ++ blanks else blanks ++ bs

/-- The digits of a number with what comes in front of them, as a layout wants them. -/
def Layout.fillNumber (l : Layout) (front : String) (digits : List Char) : List UInt8 :=
  let least := match l.precision with
    | some n => n
    | none => if l.zeros && !l.toLeft then l.width - front.length else 0
  let zeros := List.replicate (least - digits.length) '0'
  l.fill (textBytes (front ++ String.ofList (zeros ++ digits)))

/-- A whole number, as a letter shows it. -/
def Layout.showNumber (l : Layout) (letter : Char) (n : Int) : List UInt8 :=
  let magnitude := Text.unsigned64 n
  let digits (base : Nat) := if magnitude = 0 && l.precision = some 0 then []
    else Nat.toDigits base magnitude
  match letter with
  | 'u' => l.fillNumber "" (digits 10)
  | 'o' => l.fillNumber (if l.alternative && n ≠ 0 then "0" else "") (digits 8)
  | 'x' => l.fillNumber (if l.alternative && n ≠ 0 then "0x" else "") (digits 16)
  | 'X' => l.fillNumber (if l.alternative && n ≠ 0 then "0X" else "")
      ((digits 16).map Char.toUpper)
  | _ =>
    let sign := if n < 0 then "-" else if l.plus then "+" else if l.blank then " " else ""
    l.fillNumber sign
      (if n = 0 && l.precision = some 0 then [] else Nat.toDigits 10 n.natAbs)

/-- The number that an argument stands for, and what is wrong with it. -/
def argumentNumber (arg : String) : Int × Option String :=
  match arg.toList with
  | [] => (0, none)
  | q :: cs =>
    if q = '"' || q = '\'' then (((cs.head?.map Char.toNat).getD 0 : Nat), none)
    else
      match Text.integerAt? (q :: cs) with
      | none => (0, some (arg ++ ": expected numeric value"))
      | some (n, rest) =>
        (Text.clamp64 n, if rest.isEmpty then none else some (arg ++ ": not completely converted"))

/-- What has been written, and what has been found wrong. -/
structure Formatted where
  bytes : List UInt8 := []
  complaints : List String := []
  /-- Nothing more is to be written. -/
  ended : Bool := false
  /-- The format is none. -/
  failed : Bool := false
deriving Repr

/-- What an argument is shown as. -/
def Layout.showArgument (l : Layout) (letter : Char) (arg : String) : Formatted :=
  let cut (bs : List UInt8) := match l.precision with
    | some n => bs.take n
    | none => bs
  match letter with
  | 's' => { bytes := l.fill (cut (textBytes arg)) }
  | 'c' => { bytes := l.fill ((textBytes arg).take 1) }
  | 'b' =>
    let (bs, ended) := escapedBytes arg
    { bytes := l.fill (cut bs), ended := ended }
  | _ =>
    let (n, complaint) := argumentNumber arg
    { bytes := l.showNumber letter n, complaints := complaint.toList }

/-- The layout with a width that is an argument, with the arguments that are left. -/
def Layout.takeWidth (l : Layout) (args : List String) : Layout × List String :=
  if l.widthGiven then
    let (n, _) := argumentNumber (args.head?.getD "")
    ({ l with width := n.natAbs, toLeft := l.toLeft || n < 0 }, args.tail)
  else (l, args)

/-- One text after another. -/
def Formatted.append (f g : Formatted) : Formatted where
  bytes := f.bytes ++ g.bytes
  complaints := f.complaints ++ g.complaints
  ended := g.ended
  failed := g.failed

/-- What one pass over a format writes, with the arguments that are left. -/
def onePass (soFar : Formatted) : List FormatPiece → List String → Formatted × List String
  | [], args => (soFar, args)
  | .bytes bs :: ps, args => onePass (soFar.append { bytes := bs }) ps args
  | .unknown text :: _, args =>
    (soFar.append { complaints := [text ++ ": invalid directive"], failed := true }, args)
  | .value l letter :: ps, args =>
    let (l, args) := l.takeWidth args
    let next := soFar.append (l.showArgument letter (args.head?.getD ""))
    if next.ended then (next, []) else onePass next ps args.tail

/-- What passes over a format write, as long as they take arguments. -/
def passes : Nat → Formatted → List FormatPiece → List String → Formatted
  | 0, soFar, _, _ => soFar
  | n + 1, soFar, ps, args =>
    let (next, rest) := onePass soFar ps args
    if next.ended || next.failed || rest.isEmpty || rest.length = args.length then next
    else passes n next ps rest

/-- What `printf` writes for a format with arguments. -/
def printf (format : String) (args : List String) : Formatted :=
  passes (args.length + 1) {} (formatPieces format) args

end Pipewright.Shell
