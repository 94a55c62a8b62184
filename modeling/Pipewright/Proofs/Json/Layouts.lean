import Pipewright.Proofs.Json.Numerals
import Pipewright.Proofs.Json.Reads

/-!
# Layouts of values

The compact and the indented text of a value have the same words in the same order, and differ only
in the blanks on new lines and behind colons.  What is shown of reading a value holds of any layout
that is made so.

* `separated`, `bracketed`, `memberText`: the text of items or members with commas between them and
  brackets around them.
* `Layout`: the ways to write values.
* `Layout.compact`, `Layout.pretty`: the two layouts.
-/

namespace Pipewright.Json

/-- Texts on a line each, with a comma before each one, or before each one but the first. -/
def separated (line : List Char) : Bool → List (List Char) → List Char
  | _, [] => []
  | first, t :: ts => (if first then line else ',' :: line) ++ (t ++ separated line false ts)

/-- Texts on a line each between brackets, the second of which is on a line of its own unless there
is no text. -/
def bracketed (opening closing : Char) (inner outer : List Char) (ts : List (List Char)) :
    List Char :=
  opening :: (separated inner true ts ++ (if ts.isEmpty then [] else outer) ++ [closing])

/-- The text of a member: its key, a colon, and its value behind some space. -/
def memberText (space : List Char) (text : Value → List Char) (m : String × Value) : List Char :=
  (stringText m.1).toList ++ ':' :: (space ++ text m.2)

/-- A way to write values: what is written for a value at a level of indentation, with the blanks
that start a new line and those behind a colon. -/
structure Layout where
  text : Nat → Value → List Char
  line : Nat → List Char
  space : List Char
  blanks_line : ∀ level, Blanks (line level)
  blanks_space : Blanks space
  text_null : ∀ level, text level .null = ['n', 'u', 'l', 'l']
  text_true : ∀ level, text level (.bool true) = ['t', 'r', 'u', 'e']
  text_false : ∀ level, text level (.bool false) = ['f', 'a', 'l', 's', 'e']
  text_number : ∀ level n, text level (.number n) = (numberText n).toList
  text_string : ∀ level s, text level (.string s) = (stringText s).toList
  text_array : ∀ level vs, text level (.array vs) =
    bracketed '[' ']' (line (level + 1)) (line level) (vs.map (text (level + 1)))
  text_object : ∀ level ms, text level (.object ms) =
    bracketed '\x7b' '\x7d' (line (level + 1)) (line level)
      (ms.map (memberText space (text (level + 1))))

/-- The text of a string is that of its characters between quotes. -/
theorem toList_stringText (s : String) :
    (stringText s).toList = '"' :: (s.toList.flatMap stringChar ++ ['"']) := by
  rw [stringText, String.toList_ofList]
  rfl

/-! ## The compact layout -/

theorem toList_compactItems (vs : List Value) :
    (compactItems vs).toList = separated [] true (vs.map fun v => v.compact.toList) := by
  have hrest : ∀ (v : Value) (vs : List Value), (compactItems (v :: vs)).toList =
      v.compact.toList ++ separated [] false (vs.map fun w => w.compact.toList) := by
    intro v vs
    induction vs generalizing v with
    | nil => simp [compactItems, separated]
    | cons w vs ih => simp [compactItems, separated, ih]
  cases vs with
  | nil => rfl
  | cons v vs => simp [hrest, separated]

theorem toList_compactMembers (ms : List (String × Value)) :
    (compactMembers ms).toList =
      separated [] true (ms.map (memberText [] fun v => v.compact.toList)) := by
  have hrest : ∀ (m : String × Value) (ms : List (String × Value)),
      (compactMembers (m :: ms)).toList = memberText [] (fun v => v.compact.toList) m ++
        separated [] false (ms.map (memberText [] fun v => v.compact.toList)) := by
    intro m ms
    induction ms generalizing m with
    | nil => simp [compactMembers, memberText, separated]
    | cons n ms ih => simp [compactMembers, memberText, separated, ih]
  cases ms with
  | nil => rfl
  | cons m ms => simp [hrest, separated]

/-- Everything on one line, without any blank. -/
def Layout.compact : Layout where
  text _ v := v.compact.toList
  line _ := []
  space := []
  blanks_line _ := blanks_nil
  blanks_space := blanks_nil
  text_null _ := by rw [Value.compact]; rfl
  text_true _ := by rw [Value.compact]; rfl
  text_false _ := by rw [Value.compact]; rfl
  text_number _ n := by rw [Value.compact]
  text_string _ s := by rw [Value.compact]
  text_array _ vs := by
    rw [Value.compact, String.toList_append, String.toList_append, toList_compactItems, bracketed,
      ite_self, List.append_nil]
    rfl
  text_object _ ms := by
    rw [Value.compact, String.toList_append, String.toList_append, toList_compactMembers, bracketed,
      ite_self, List.append_nil]
    rfl

/-! ## The indented layout -/

theorem blanks_newLine (level : Nat) : Blanks (newLine level).toList := by
  rw [newLine, String.toList_ofList]
  refine List.forall_mem_cons.mpr ⟨by decide, fun x hx => ?_⟩
  rw [List.eq_of_mem_replicate hx]
  decide

/-- What stands on the lines of the items. -/
theorem toList_prettyItems (level : Nat) (vs : List Value) (hvs : vs ≠ []) :
    (newLine level).toList ++ (prettyItems level vs).toList =
      separated (newLine level).toList true (vs.map fun v => (v.prettyAt level).toList) := by
  have hrest : ∀ (v : Value) (vs : List Value), (prettyItems level (v :: vs)).toList =
      (v.prettyAt level).toList ++ separated (newLine level).toList false
        (vs.map fun w => (w.prettyAt level).toList) := by
    intro v vs
    induction vs generalizing v with
    | nil => simp [prettyItems, separated]
    | cons w vs ih => simp [prettyItems, separated, ih]
  cases vs with
  | nil => exact absurd rfl hvs
  | cons v vs => simp [hrest, separated]

/-- What stands on the lines of the members. -/
theorem toList_prettyMembers (level : Nat) (ms : List (String × Value)) (hms : ms ≠ []) :
    (newLine level).toList ++ (prettyMembers level ms).toList =
      separated (newLine level).toList true
        (ms.map (memberText [' '] fun v => (v.prettyAt level).toList)) := by
  have hrest : ∀ (m : String × Value) (ms : List (String × Value)),
      (prettyMembers level (m :: ms)).toList =
        memberText [' '] (fun v => (v.prettyAt level).toList) m ++
          separated (newLine level).toList false
            (ms.map (memberText [' '] fun v => (v.prettyAt level).toList)) := by
    intro m ms
    induction ms generalizing m with
    | nil => simp [prettyMembers, memberText, separated]
    | cons n ms ih => simp [prettyMembers, memberText, separated, ih]
  cases ms with
  | nil => exact absurd rfl hms
  | cons m ms => simp [hrest, separated]

/-- A line for each item and each member, with two spaces a level. -/
def Layout.pretty : Layout where
  text level v := (v.prettyAt level).toList
  line level := (newLine level).toList
  space := [' ']
  blanks_line := blanks_newLine
  blanks_space := by simp [Blanks]
  text_null _ := by rw [Value.prettyAt]; rfl
  text_true _ := by rw [Value.prettyAt]; rfl
  text_false _ := by rw [Value.prettyAt]; rfl
  text_number _ n := by rw [Value.prettyAt]
  text_string _ s := by rw [Value.prettyAt]
  text_array level vs := by
    cases vs with
    | nil =>
      rw [Value.prettyAt]
      rfl
    | cons v vs =>
      rw [Value.prettyAt, bracketed, ← toList_prettyItems _ _ (List.cons_ne_nil v vs)]
      simp
  text_object level ms := by
    cases ms with
    | nil =>
      rw [Value.prettyAt]
      rfl
    | cons m ms =>
      rw [Value.prettyAt, bracketed, ← toList_prettyMembers _ _ (List.cons_ne_nil m ms)]
      simp

/-! ## How texts start -/

namespace Layout

variable (layout : Layout) (level : Nat)

/-- The bracket that closes is on a line of its own, or right behind the one that opens. -/
theorem blanks_closing (b : Bool) : Blanks (if b then [] else layout.line level) := by
  cases b with
  | true => exact blanks_nil
  | false => exact layout.blanks_line level

/-- The text of a value starts with a character that is no blank and closes no array, and that
starts null only if the value is null. -/
theorem text_eq_cons (v : Value) : ∃ x rest, layout.text level v = x :: rest ∧
    x ∉ [' ', '\t', '\n', '\r', ']'] ∧ (v ≠ .null → x ≠ 'n') := by
  match v with
  | .null => exact ⟨'n', _, layout.text_null level, by decide, fun h => absurd rfl h⟩
  | .bool true => exact ⟨'t', _, layout.text_true level, by decide, fun _ => by decide⟩
  | .bool false => exact ⟨'f', _, layout.text_false level, by decide, fun _ => by decide⟩
  | .string s =>
    exact ⟨'"', _, (layout.text_string level s).trans (toList_stringText s), by decide,
      fun _ => by decide⟩
  | .array vs => exact ⟨'[', _, layout.text_array level vs, by decide, fun _ => by decide⟩
  | .object ms => exact ⟨'\x7b', _, layout.text_object level ms, by decide, fun _ => by decide⟩
  | .number n =>
    obtain ⟨negative, cs, htext, hdecimal⟩ := decimalText_numberText n
    rw [layout.text_number, htext]
    cases negative with
    | true => exact ⟨'-', cs, rfl, by decide, fun _ => by decide⟩
    | false =>
      obtain ⟨x, rest, rfl, hx⟩ := hdecimal.exists_cons
      have hnone : ∀ y ∈ [' ', '\t', '\n', '\r', ']', 'n'], y.isDigit = false := by simp
      have hne : ∀ y ∈ [' ', '\t', '\n', '\r', ']', 'n'], x ≠ y := by
        rintro y hy rfl
        rw [hnone x hy] at hx
        cases hx
      refine ⟨x, rest, rfl, fun hmem => ?_, fun _ => hne 'n' (by decide)⟩
      exact hne x (List.mem_append_left ['n'] hmem) rfl

end Layout

end Pipewright.Json
