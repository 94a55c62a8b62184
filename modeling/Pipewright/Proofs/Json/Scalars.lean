import Pipewright.Json.Scalar
import Pipewright.Proofs.Json.Reads
import Pipewright.Proofs.Text.Lines

/-!
# Strings and numbers are read back

A string is written with the quote, the backslash and the controls escaped, and each character is
read back from what has been written for it.  A whole number of at most 64 bits is written in
decimal digits without a zero in front, so all digits are taken for it, up to the first character
that is none.

* `Reader.reads_readString`: strings.
* `Reader.Ends`: what may follow a number.
* `Reader.reads_readNumber`, `Reader.reads_readNegative`: whole numbers.
* `Reader.reads_readWord`: words.
-/

namespace Pipewright.Json

namespace Reader

variable {more : List Char}

/-! ## Escapes -/

/-- An escape of one letter. -/
theorem reads_readEscape {x y : Char} (h : escaped? x = some y) (more : List Char) :
    Reads readEscape [x] y more := by
  refine .peek ?_
  simp only [List.cons_append, List.head?_cons, h]
  exact .advance_bind (.pure y more)

theorem hexValue?_digitChar : ∀ n < 16, hexValue? (Nat.digitChar n) = some n := by
  decide

/-- Hexadecimal digits have one byte. -/
theorem utf8Size_of_hexValue? {c : Char} {n : Nat} (h : hexValue? c = some n) : c.utf8Size = 1 := by
  rw [Char.utf8Size_eq_one_iff]
  have hle : c.toNat ≤ 0x66 := by
    simp only [hexValue?, Bool.and_eq_true, decide_eq_true_eq] at h
    split at h
    · omega
    · split at h
      · omega
      · split at h
        · omega
        · cases h
  exact UInt32.le_iff_toNat_le.mpr (Nat.le_trans hle (by decide))

/-- Four hexadecimal digits are read for their number. -/
theorem reads_readHex {digits : List Char} {n : Nat} (hlength : digits.length = 4)
    (h : fourHexDigits? digits = some n) (more : List Char) : Reads readHex digits n more := by
  obtain ⟨a, b, c, d, rfl⟩ : ∃ a b c d, digits = [a, b, c, d] := by
    match digits, hlength with
    | [a, b, c, d], _ => exact ⟨a, b, c, d, rfl⟩
  have hbytes : byteCount [a, b, c, d] = 4 := by
    simp only [fourHexDigits?, Option.bind_eq_bind, Option.bind_eq_some_iff] at h
    obtain ⟨_, ha, _, hb, _, hc, _, hd, -⟩ := h
    simp only [byteCount_cons, utf8Size_of_hexValue? ha, utf8Size_of_hexValue? hb,
      utf8Size_of_hexValue? hc, utf8Size_of_hexValue? hd]
    rfl
  intro offset
  have hleft : ¬ (Cursor.facing offset ([a, b, c, d] ++ more)).left < 4 := by
    rw [Cursor.left_facing, byteCount_append, hbytes]
    omega
  have hfound : fourHexDigits? (Cursor.facing offset ([a, b, c, d] ++ more)).rest = some n := h
  have hget : (get : Reader Cursor) (.facing offset ([a, b, c, d] ++ more)) =
    .ok (.facing offset ([a, b, c, d] ++ more), .facing offset ([a, b, c, d] ++ more)) := rfl
  rw [readHex, bind_of_ok hget, if_neg hleft]
  simp only [hfound]
  show Except.ok (n, Cursor.mk more (offset + 4) (offset + byteCount ([a, b, c, d] ++ more))) = _
  rw [byteCount_append, hbytes, ← Nat.add_assoc]
  rfl

/-- The four hexadecimal digits of a control. -/
theorem fourHexDigits?_control {n : Nat} (hn : n < 0x20) :
    fourHexDigits? ['0', '0', Nat.digitChar (n / 16), Nat.digitChar (n % 16)] = some n := by
  have hhigh : n / 16 < 16 := by omega
  have hlow : n % 16 < 16 := Nat.mod_lt _ (by decide)
  simp only [fourHexDigits?, hexValue?_digitChar _ hhigh, hexValue?_digitChar _ hlow]
  show some (((0 * 16 + 0) * 16 + n / 16) * 16 + n % 16) = some n
  exact congrArg some (by omega)

/-- A control is told by its digits. -/
theorem reads_readEscape_control {c : Char} (hc : c.toNat < 0x20) (more : List Char) :
    Reads readEscape ['u', '0', '0', Nat.digitChar (c.toNat / 16), Nat.digitChar (c.toNat % 16)] c
      more := by
  refine .peek (.advance_bind ?_)
  refine (reads_readHex rfl (fourHexDigits?_control hc) more).bind_nil ?_
  have hfirst : isFirstHalf c.toNat = false := by
    rw [isFirstHalf, Bool.and_eq_false_iff, decide_eq_false_iff_not]
    exact .inl (by omega)
  have hsecond : isSecondHalf c.toNat = false := by
    rw [isSecondHalf, Bool.and_eq_false_iff, decide_eq_false_iff_not]
    exact .inl (by omega)
  simp only [hfirst, hsecond, Bool.false_eq_true, if_false, Char.ofNat_toNat]
  exact .pure c more

/-! ## Strings -/

/-- A character stands in a string as an escape of one letter, as the escape of a control, or as
itself. -/
theorem stringChar_cases (c : Char) :
    (∃ x, escaped? x = some c ∧ stringChar c = ['\\', x]) ∨
    (c.toNat < 0x20 ∧ stringChar c =
      ['\\', 'u', '0', '0', Nat.digitChar (c.toNat / 16), Nat.digitChar (c.toNat % 16)]) ∨
    (c ≠ '"' ∧ c ≠ '\\' ∧ ¬ c.toNat < 0x20 ∧ stringChar c = [c]) := by
  unfold stringChar
  split
  · exact .inl ⟨'"', rfl, rfl⟩
  · exact .inl ⟨'\\', rfl, rfl⟩
  · exact .inl ⟨'b', rfl, rfl⟩
  · exact .inl ⟨'f', rfl, rfl⟩
  · exact .inl ⟨'n', rfl, rfl⟩
  · exact .inl ⟨'r', rfl, rfl⟩
  · exact .inl ⟨'t', rfl, rfl⟩
  · next hquote hbackslash _ _ _ _ _ =>
    split
    · next hcontrol => exact .inr (.inl ⟨hcontrol, rfl⟩)
    · next hcontrol => exact .inr (.inr ⟨hquote, hbackslash, hcontrol, rfl⟩)

theorem stringChar_ne_nil (c : Char) : stringChar c ≠ [] := by
  obtain ⟨x, -, h⟩ | ⟨-, h⟩ | ⟨-, -, -, h⟩ := stringChar_cases c
  all_goals
    rw [h]
    exact List.cons_ne_nil _ _

/-- Each character of a string is read from what is written for it, and the string up to the quote
behind it. -/
theorem reads_readString (s : String) (more : List Char) :
    Reads readString (s.toList.flatMap stringChar ++ ['"']) s more := by
  have hresult : String.ofList (s.toList.foldl (fun soFar c => c :: soFar) []).reverse = s := by
    simp
  refine Reads.iterate_of_steps stringChar (fun soFar c => c :: soFar)
    (fun soFar => String.ofList soFar.reverse) (fun soFar c rest => ?_) stringChar_ne_nil
    (fun soFar => .peek ?_) s.toList [] hresult
  · obtain ⟨x, hx, h⟩ | ⟨hcontrol, h⟩ | ⟨hquote, hbackslash, hcontrol, h⟩ := stringChar_cases c
    · rw [h]
      exact .peek (.advance_bind ((reads_readEscape hx rest).bind_nil (.pure _ _)))
    · rw [h]
      exact .peek (.advance_bind ((reads_readEscape_control hcontrol rest).bind_nil (.pure _ _)))
    · rw [h]
      refine .peek ?_
      simp only [List.cons_append, List.nil_append, List.head?_cons]
      refine .advance_bind ?_
      rw [if_neg hcontrol]
      exact .pure _ _
  · exact .advance_bind (.pure _ _)

/-! ## Words -/

/-- A word is read letter by letter. -/
theorem reads_readWord (word more : List Char) : Reads (readWord word) word () more := by
  induction word with
  | nil => exact .pure () more
  | cons x word ih =>
    rw [readWord]
    refine .peek ?_
    simp only [List.cons_append, List.head?_cons, if_true]
    exact .advance_bind ih

/-! ## Numbers -/

/-- What may follow a number: nothing that could belong to it. -/
def Ends (more : List Char) : Prop :=
  ∀ x ∈ more.head?, x.isDigit = false ∧ x ∉ ['.', 'e', 'E']

/-- The characters that stand behind a value belong to no number. -/
theorem ends_cons {x : Char} (hx : x ∈ [' ', '\t', '\n', '\r', ',', ']', '\x7d']) (rest : List Char) :
    Ends (x :: rest) := by
  have hall : ∀ y ∈ [' ', '\t', '\n', '\r', ',', ']', '\x7d'],
      y.isDigit = false ∧ y ∉ ['.', 'e', 'E'] := by simp
  intro y hy
  obtain rfl : x = y := Option.some.inj hy
  exact hall x hx

theorem ends_nil : Ends [] := fun _ h => by cases h

theorem utf8Size_of_isDigit {c : Char} (h : c.isDigit = true) : c.utf8Size = 1 := by
  rw [Char.utf8Size_eq_one_iff]
  simp only [Char.isDigit, Bool.and_eq_true, decide_eq_true_eq] at h
  exact UInt32.le_trans h.2 (by decide)

/-- The values of digits. -/
theorem filterMap_digit? {cs : List Char} (hcs : ∀ c ∈ cs, c.isDigit = true) :
    cs.filterMap digit? = cs.map fun c => c.toNat - 0x30 :=
  List.filterMap_eq_map_iff_forall_eq_some.mpr fun c hc => by rw [digit?, if_pos (hcs c hc)]

/-- Digits are read up to the first character that is none. -/
theorem reads_readDigits {cs : List Char} (hcs : ∀ c ∈ cs, c.isDigit = true)
    (h : ∀ x ∈ more.head?, x.isDigit = false) :
    Reads readDigits cs (cs.map fun c => c.toNat - 0x30) more := by
  intro offset
  have hmore : more.takeWhile Char.isDigit = [] := by
    rcases more with _ | ⟨x, more⟩
    · rfl
    · exact List.takeWhile_cons_of_neg (by simpa using h x rfl)
  have htaken : (cs ++ more).takeWhile Char.isDigit = cs := by
    rw [List.takeWhile_append_of_pos hcs, hmore, List.append_nil]
  have hbytes : byteCount cs = cs.length :=
    byteCount_eq_length fun c hc => utf8Size_of_isDigit (hcs c hc)
  have hrest : (cs ++ more).drop (cs.map fun c => c.toNat - 0x30).length = more := by
    rw [List.length_map, List.drop_left]
  have hget : (get : Reader Cursor) (.facing offset (cs ++ more)) =
    .ok (.facing offset (cs ++ more), .facing offset (cs ++ more)) := rfl
  rw [readDigits, bind_of_ok hget, Cursor.rest_facing, htaken, filterMap_digit? hcs, hrest,
    List.length_map, hbytes]
  show Except.ok (_, Cursor.mk more _ (offset + byteCount (cs ++ more))) = _
  rw [byteCount_append, hbytes, ← Nat.add_assoc]
  rfl

/-- Digits make at least the number that they go on from. -/
theorem le_ofDigitChars (cs : List Char) (n : Nat) : n ≤ Nat.ofDigitChars 10 cs n := by
  induction cs generalizing n with
  | nil => exact Nat.le_refl n
  | cons c cs ih =>
    rw [Nat.ofDigitChars_cons]
    exact Nat.le_trans (by omega) (ih _)

/-- Digits of a number that fits in 64 bits are all taken for it. -/
theorem ofWhole_digits {cs : List Char} (hfits : Nat.ofDigitChars 10 cs 0 < UInt64.size) :
    Digits.ofWhole (cs.map fun c => c.toNat - 0x30) = ⟨Nat.ofDigitChars 10 cs 0, 0, false⟩ := by
  rw [Digits.ofWhole]
  generalize 0 = n at hfits ⊢
  induction cs generalizing n with
  | nil => rfl
  | cons c cs ih =>
    rw [Nat.ofDigitChars_cons, Nat.mul_comm] at hfits ⊢
    have hnext : fits (n * 10 + (c.toNat - 0x30)) = true :=
      decide_eq_true (Nat.lt_of_le_of_lt (le_ofDigitChars cs _) hfits)
    rw [List.map_cons, List.foldl_cons]
    simp only [hnext, Bool.not_false, Bool.and_self, if_true]
    exact ih _ hfits

/-- The decimal digits of a number do not start with a zero, unless it is zero. -/
theorem head?_toDigits_ne_zero {n : Nat} (hn : n ≠ 0) : (Nat.toDigits 10 n).head? ≠ some '0' := by
  induction n using Nat.strongRecOn with
  | ind n ih =>
    rw [Nat.toDigits_eq_if (by decide)]
    split
    · next hlt =>
      have hdigit : ∀ m < 10, m ≠ 0 → [Nat.digitChar m].head? ≠ some '0' := by decide
      exact hdigit n hlt hn
    · next hge =>
      rw [List.head?_append_of_ne_nil _ Nat.toDigits_ne_nil]
      exact ih (n / 10) (by omega) (by omega)

section Whole

variable {negative : Bool} {n : Nat} {a : Number}

/-- What follows a number that ends without fraction and exponent. -/
theorem reads_readAfterWhole (ha : wholeNumber negative ⟨n, 0, false⟩ = pure a) (h : Ends more) :
    Reads (readAfterWhole negative ⟨n, 0, false⟩) [] a more := by
  refine .peek ?_
  rw [List.nil_append]
  split
  · next hmore => exact absurd (h _ hmore).2 (by decide)
  · next hmore => exact absurd (h _ hmore).2 (by decide)
  · next hmore => exact absurd (h _ hmore).2 (by decide)
  · rw [ha]
    exact .pure _ more

/-- Decimal digits that fit in 64 bits are read for what they stand for behind the sign. -/
theorem reads_readWhole (hn : n < UInt64.size) (ha : wholeNumber negative ⟨n, 0, false⟩ = pure a)
    (h : Ends more) : Reads (readNumber negative) (Nat.toDigits 10 n) a more := by
  by_cases hzero : n = 0
  · subst hzero
    refine .peek (.advance_bind (.peek ?_))
    have hdigit : (more.head?.bind digit?).isSome = false := by
      rcases more with _ | ⟨x, more⟩
      · rfl
      · rw [List.head?_cons, Option.bind_some, digit?, (h x rfl).1]
        rfl
    rw [List.nil_append, hdigit]
    exact reads_readAfterWhole ha h
  · have hdigits : ∀ c ∈ Nat.toDigits 10 n, c.isDigit = true := fun c hc =>
      Nat.isDigit_of_mem_toDigits (by decide) (by decide) hc
    obtain ⟨x, cs, hcons⟩ := List.exists_cons_of_ne_nil (Nat.toDigits_ne_nil (n := n) (b := 10))
    have hx : x ≠ '0' := by
      have hhead := head?_toDigits_ne_zero hzero
      rw [hcons] at hhead
      exact fun hx => hhead (congrArg some hx)
    have hread : Reads (readDigits >>= fun ds => readAfterWhole negative (Digits.ofWhole ds))
        (Nat.toDigits 10 n) a more := by
      refine (reads_readDigits hdigits fun y hy => (h y hy).1).bind_nil ?_
      rw [ofWhole_digits (by rwa [Nat.ofDigitChars_ten_toDigits]), Nat.ofDigitChars_ten_toDigits]
      exact reads_readAfterWhole ha h
    rw [hcons] at hdigits hread ⊢
    refine .peek ?_
    simp only [List.cons_append, List.head?_cons, digit?, hdigits x List.mem_cons_self, if_true,
      Option.isSome_some]
    exact hread

end Whole

/-- A natural number of at most 64 bits is read from its decimal digits. -/
theorem reads_readNumber {n : Nat} (hn : n < UInt64.size) (h : Ends more) :
    Reads (readNumber false) (Nat.toDigits 10 n) (.natural n) more :=
  reads_readWhole hn rfl h

/-- A negative number of at most 64 bits is read from its decimal digits behind the sign. -/
theorem reads_readNegative {n : Nat} (hzero : n ≠ 0) (hn : n ≤ 1 <<< 63) (h : Ends more) :
    Reads (readNumber true) (Nat.toDigits 10 n) (.negative n) more := by
  have hsize : 1 <<< 63 < UInt64.size := by decide
  refine reads_readWhole (Nat.lt_of_le_of_lt hn hsize) ?_ h
  rw [wholeNumber, if_neg Bool.false_ne_true, if_neg (by decide), if_pos ⟨hzero, hn⟩]

end Reader

end Pipewright.Json
