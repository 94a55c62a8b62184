/-!
# Cutting and finding text

Lines, path components and search lists are all cut at a single separating character, and every
piece is kept, empty ones too, so joining the pieces gives the text back.

* `pieces`: the pieces between separators; `intercalate_pieces` joins them again, and
  `pieces_intercalate` cuts what has been joined.
* `lines`, `unlines`: the pieces between line feeds, and their text.
* `occursIn`, `after?`: one text stands somewhere in another, and what follows it there.
* `afterLastOf`, `decimal`: the end of a path, and numbers.
-/

namespace Pipewright.Text

/-! ## Pieces -/

/-- The pieces of a text between the characters equal to `sep`.  There is one piece more than there
are separators, so there is always at least one. -/
def pieces (sep : Char) (s : String) : List String :=
  (s.toList.splitOn sep).map String.ofList

/-- The pieces make the text again. -/
theorem intercalate_pieces (sep : Char) (s : String) :
    String.intercalate (String.singleton sep) (pieces sep s) = s := by
  apply String.toList_injective
  simp [pieces, String.toList_intercalate, List.map_map, Function.comp_def]

/-- Texts without the separator are the pieces of the text that they make. -/
theorem pieces_intercalate {sep : Char} {ls : List String} (hne : ls ≠ [])
    (h : ∀ l ∈ ls, sep ∉ l.toList) :
    pieces sep (String.intercalate (String.singleton sep) ls) = ls := by
  rw [pieces, String.toList_intercalate, String.toList_singleton, List.splitOn_intercalate]
  · simp [List.map_map, Function.comp_def]
  · simpa using h
  · simpa using hne

/-! ## Lines -/

/-- The lines of a text: its pieces between line feeds. -/
def lines (s : String) : List String :=
  pieces '\n' s

/-- Lines joined by line feeds. -/
def unlines (ls : List String) : String :=
  String.intercalate "\n" ls

/-- The lines of a text make the text again. -/
@[simp] theorem unlines_lines (s : String) : unlines (lines s) = s :=
  intercalate_pieces '\n' s

/-- Lines are read back from the text that they make. -/
theorem lines_unlines {ls : List String} (hne : ls ≠ []) (h : ∀ l ∈ ls, '\n' ∉ l.toList) :
    lines (unlines ls) = ls :=
  pieces_intercalate hne h

/-! ## Finding -/

/-- What follows the first place where `needle` stands in a list. -/
def afterOf? (needle : List Char) : List Char → Option (List Char)
  | [] => if needle.isEmpty then some [] else none
  | c :: cs =>
    if needle.isPrefixOf (c :: cs) then some ((c :: cs).drop needle.length)
    else afterOf? needle cs

/-- What follows the first place where `needle` stands in the text. -/
def after? (needle s : String) : Option String :=
  (afterOf? needle.toList s.toList).map String.ofList

/-- `needle` stands somewhere in the text. -/
def occursIn (needle s : String) : Bool :=
  (afterOf? needle.toList s.toList).isSome

theorem isSome_afterOf?_iff {needle cs : List Char} :
    (afterOf? needle cs).isSome = true ↔ needle <:+: cs := by
  induction cs with
  | nil => by_cases h : needle = [] <;> simp [afterOf?, h]
  | cons c cs ih =>
    rw [afterOf?, List.infix_cons_iff, ← ih]
    by_cases h : needle.isPrefixOf (c :: cs) = true
    · simp [h, List.isPrefixOf_iff_prefix.1 h]
    · rw [if_neg h]
      rw [List.isPrefixOf_iff_prefix] at h
      simp [h]

/-- A text occurs in another one when it is a contiguous part of it. -/
theorem occursIn_iff {needle s : String} :
    occursIn needle s = true ↔ needle.toList <:+: s.toList :=
  isSome_afterOf?_iff

/-! ## The end of a list, and numbers -/

/-- The entries after the last one equal to `sep`, or all of them when there is none. -/
def afterLastOf (sep : Char) (cs : List Char) : List Char :=
  (cs.reverse.takeWhile (· ≠ sep)).reverse

/-- A number in decimal digits. -/
def decimal (n : Nat) : String :=
  String.ofList (Nat.toDigits 10 n)

/-- A whole number in decimal digits, with a minus in front when it is negative. -/
def signedDecimal (n : Int) : String :=
  if n < 0 then "-" ++ decimal n.natAbs else decimal n.natAbs

end Pipewright.Text
