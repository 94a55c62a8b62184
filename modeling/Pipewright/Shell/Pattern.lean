/-!
# Patterns of the shell

In a pattern `*` stands for any characters, `?` for any one, and a text in brackets for any one of
the characters in it.  A character that is quoted stands for itself.

* `PatternItem`, `Pattern.fits`: patterns, and the texts that have their shape.
* `Pattern.ofMarked`: the pattern of a text in which some characters are quoted.
* `Pattern.withoutStart`, `Pattern.withoutEnd`: a text without the part that fits.
-/

namespace Pipewright.Shell

/-- A part of a pattern. -/
inductive PatternItem where
  | char (c : Char)
  | one
  | any
  /-- One of the characters in the ranges, or one that is in none of them. -/
  | among (inverted : Bool) (ranges : List (Char × Char))
deriving DecidableEq, Repr

/-- A pattern. -/
abbrev Pattern := List PatternItem

/-- A character with a mark that tells whether it is quoted. -/
abbrev MarkedChar := Char × Bool

/-- The ranges hold a character. -/
def inRanges (ranges : List (Char × Char)) (c : Char) : Bool :=
  ranges.any fun r => r.1 ≤ c && c ≤ r.2

namespace Pattern

/-- The text has the shape of the pattern. -/
def fits : Pattern → List Char → Bool
  | [], cs => cs.isEmpty
  | .any :: p, cs => (List.range (cs.length + 1)).any fun n => fits p (cs.drop n)
  | .one :: p, cs => !cs.isEmpty && fits p cs.tail
  | .char d :: p, cs => cs.head? = some d && fits p cs.tail
  | .among inverted ranges :: p, cs =>
    match cs with
    | c :: rest => inRanges ranges c != inverted && fits p rest
    | [] => false

/-! ## Brackets -/

/-- The ranges of the classes of characters. -/
def classes : List (String × List (Char × Char)) :=
  [("alpha", [('A', 'Z'), ('a', 'z')]), ("digit", [('0', '9')]),
    ("alnum", [('0', '9'), ('A', 'Z'), ('a', 'z')]), ("upper", [('A', 'Z')]),
    ("lower", [('a', 'z')]), ("space", [('\t', '\x0d'), (' ', ' ')]),
    ("blank", [('\t', '\t'), (' ', ' ')]),
    ("punct", [('!', '/'), (':', '@'), ('[', '\x60'), ('\x7b', '~')]),
    ("xdigit", [('0', '9'), ('A', 'F'), ('a', 'f')]), ("print", [(' ', '~')]),
    ("graph", [('!', '~')]), ("cntrl", [('\x00', '\x1f'), ('\x7f', '\x7f')])]

/-- The class that is named here, and what follows it. -/
def classAt? (cs : List MarkedChar) : Option (List (Char × Char) × List MarkedChar) :=
  let name := (cs.map Prod.fst).takeWhile Char.isAlpha
  match cs.drop name.length, classes.lookup (String.ofList name) with
  | (':', _) :: (']', _) :: rest, some ranges => some (ranges, rest)
  | _, _ => none

/-- The ranges up to the closing bracket, and what follows it.  A bracket that comes first closes
nothing.  The fuel is the number of characters at hand. -/
def rangesFrom (first : Bool) : Nat → List MarkedChar →
    Option (List (Char × Char) × List MarkedChar)
  | 0, _ => none
  | _, [] => none
  | n + 1, (c, quoted) :: cs =>
    if c = ']' && !quoted && !first then some ([], cs)
    else
      let named := match cs with
        | (':', _) :: rest => if c = '[' && !quoted then classAt? rest else none
        | _ => none
      match named with
      | some (ranges, rest) => (rangesFrom false n rest).map fun (rs, rest) => (ranges ++ rs, rest)
      | none =>
        match cs with
        | ('-', false) :: (d, dQuoted) :: rest =>
          if d = ']' && !dQuoted then
            (rangesFrom false n cs).map fun (rs, rest) => ((c, c) :: rs, rest)
          else (rangesFrom false n rest).map fun (rs, rest) => ((c, d) :: rs, rest)
        | _ => (rangesFrom false n cs).map fun (rs, rest) => ((c, c) :: rs, rest)

/-- The item of a bracket that has been opened, and what follows it. -/
def bracketAt? (cs : List MarkedChar) : Option (PatternItem × List MarkedChar) :=
  match cs with
  | ('!', false) :: rest =>
    (rangesFrom true rest.length rest).map fun (rs, rest) => (.among true rs, rest)
  | _ => (rangesFrom true cs.length cs).map fun (rs, rest) => (.among false rs, rest)

/-- The pattern from here on.  The fuel is the number of characters at hand. -/
def markedFrom : Nat → List MarkedChar → Pattern
  | 0, _ => []
  | _, [] => []
  | n + 1, (c, true) :: cs => .char c :: markedFrom n cs
  | n + 1, (c, false) :: cs =>
    if c = '*' then .any :: markedFrom n cs
    else if c = '?' then .one :: markedFrom n cs
    else if c = '[' then
      match bracketAt? cs with
      | some (item, rest) => item :: markedFrom n rest
      | none => .char c :: markedFrom n cs
    else .char c :: markedFrom n cs

/-- The pattern that a text is. -/
def ofMarked (cs : List MarkedChar) : Pattern :=
  markedFrom cs.length cs

/-- Some character of the text stands for others. -/
def isActive (cs : List MarkedChar) : Bool :=
  cs.any fun (c, quoted) => !quoted && (c = '*' || c = '?' || c = '[')

/-! ## Texts without the parts that fit -/

/-- The text without the shortest or the longest start that fits. -/
def withoutStart (p : Pattern) (longest : Bool) (cs : List Char) : List Char :=
  let counts := List.range (cs.length + 1)
  match (if longest then counts.reverse else counts).find? fun n => p.fits (cs.take n) with
  | some n => cs.drop n
  | none => cs

/-- The text without the shortest or the longest end that fits. -/
def withoutEnd (p : Pattern) (longest : Bool) (cs : List Char) : List Char :=
  let counts := List.range (cs.length + 1)
  match (if longest then counts else counts.reverse).find? fun n => p.fits (cs.drop n) with
  | some n => cs.take n
  | none => cs

end Pattern

end Pipewright.Shell
