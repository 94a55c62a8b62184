/-!
# White space

A field of a document counts as filled in when it holds a character that is not white space, and
marker lines and command messages are compared without the white space around them.  White space
is the set of the twenty-five characters with the Unicode property of that name.

* `isSpace`: the characters of the set.
* `trimStart`, `trimEnd`, `trim`: what is left without the white space at the ends.
* `isBlank`: no character but white space.
-/

namespace Pipewright.Text

/-- The characters with the Unicode property `White_Space`. -/
def isSpace (c : Char) : Bool :=
  let n := c.toNat
  (0x09 ≤ n && n ≤ 0x0D) || n == 0x20 || n == 0x85 || n == 0xA0 || n == 0x1680 ||
    (0x2000 ≤ n && n ≤ 0x200A) || n == 0x2028 || n == 0x2029 || n == 0x202F || n == 0x205F ||
    n == 0x3000

/-- The text from its first character that is not white space. -/
def trimStart (cs : List Char) : List Char :=
  cs.dropWhile isSpace

/-- The text up to its last character that is not white space. -/
def trimEnd (cs : List Char) : List Char :=
  (cs.reverse.dropWhile isSpace).reverse

/-- The text without the white space at both ends. -/
def trim (s : String) : String :=
  String.ofList (trimEnd (trimStart s.toList))

/-- A text is blank when it holds nothing but white space. -/
def isBlank (s : String) : Bool :=
  s.toList.all isSpace

theorem isBlank_iff {s : String} : isBlank s = true ↔ ∀ c ∈ s.toList, isSpace c = true := by
  simp [isBlank]

/-- An optional text that counts only when it is not blank. -/
def filledIn (s : Option String) : Option String :=
  s.filter fun t => !isBlank t

theorem filledIn_eq_some_iff {s : Option String} {t : String} :
    filledIn s = some t ↔ s = some t ∧ isBlank t = false := by
  rw [filledIn, Option.filter_eq_some_iff, Bool.not_eq_true']

theorem filledIn_eq_none_iff {s : Option String} :
    filledIn s = none ↔ ∀ t, s = some t → isBlank t = true := by
  rw [filledIn, Option.filter_eq_none_iff]
  simp only [Bool.not_eq_true', Bool.not_eq_false]

end Pipewright.Text
