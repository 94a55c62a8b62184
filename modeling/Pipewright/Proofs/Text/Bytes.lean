import Mathlib.Data.List.Lex
import Mathlib.Data.String.Basic

/-!
# The order of texts and the order of their bytes

Texts are ordered by their characters, the first difference deciding, and so are their bytes.  The
two orders agree, since a greater character is encoded by greater bytes: by a greater first byte
when it needs more of them, and otherwise its number is written in digits of six bits, the first
ones first.

* `Text.bytes`: the bytes of a text in UTF-8.
* `Text.digits_lex`: the greater of two numbers differs by a greater digit.
* `Text.utf8EncodeChar_append_lt`: the bytes of the greater of two characters.
* `Text.bytes_le_bytes_iff`: the two orders.
-/

namespace Pipewright.Text

/-- The bytes of a text in UTF-8. -/
def bytes (s : String) : List UInt8 :=
  s.toUTF8.data.toList

/-- The bytes of a text are those of its characters. -/
theorem bytes_eq_flatMap (s : String) : bytes s = s.toList.flatMap String.utf8EncodeChar := by
  rw [bytes, String.toUTF8_eq_toByteArray, ← String.utf8Encode_toList, List.utf8Encode,
    List.toList_data_toByteArray]

/-! ## Characters -/

/-- The first of the digits of six bits in which two numbers differ is greater in the greater
number. -/
theorem digits_lex {n m : Nat} (h : n < m) (hm : m < 8 * 262144) :
    n / 262144 % 8 < m / 262144 % 8 ∨ n / 262144 % 8 = m / 262144 % 8 ∧
      (n / 4096 % 64 < m / 4096 % 64 ∨ n / 4096 % 64 = m / 4096 % 64 ∧
        (n / 64 % 64 < m / 64 % 64 ∨ n / 64 % 64 = m / 64 % 64 ∧ n % 64 < m % 64)) := by
  have hdigits : ∀ k < 8 * 262144, k = 262144 * (k / 262144 % 8) + 4096 * (k / 4096 % 64) +
      64 * (k / 64 % 64) + k % 64 := by omega
  have hn := hdigits n (Nat.lt_trans h hm)
  have hm := hdigits m hm
  have hsmall : ∀ k, k % 64 < 64 := fun k => Nat.mod_lt k (by decide)
  have hn₁ := hsmall (n / 4096)
  have hn₂ := hsmall (n / 64)
  have hn₃ := hsmall n
  have hm₁ := hsmall (m / 4096)
  have hm₂ := hsmall (m / 64)
  have hm₃ := hsmall m
  -- from here on only the digits matter
  generalize n / 262144 % 8 = a, n / 4096 % 64 = b, n / 64 % 64 = c, n % 64 = e at *
  generalize m / 262144 % 8 = a', m / 4096 % 64 = b', m / 64 % 64 = c', m % 64 = e' at *
  omega

/-- The bytes of a greater character are greater, whatever follows. -/
theorem utf8EncodeChar_append_lt {c d : Char} (h : c < d) (xs ys : List UInt8) :
    String.utf8EncodeChar c ++ xs < String.utf8EncodeChar d ++ ys := by
  have hlt : c.val.toNat < d.val.toNat := h
  have hbound : d.val.toNat < 0x110000 := by
    rcases d.valid with hd | hd
    · exact Nat.lt_trans hd (by decide)
    · exact hd.2
  have hfits : ∀ {k lead size : Nat}, 0 < size → size + lead ≤ 256 →
      (k % size + lead) % 2 ^ 8 = k % size + lead := by
    intro k lead size hsize hle
    have hk := Nat.mod_lt k hsize
    exact Nat.mod_eq_of_lt (by omega)
  simp only [String.utf8EncodeChar]
  generalize c.val.toNat = n at *
  generalize d.val.toNat = m at *
  have hlex := digits_lex hlt (Nat.lt_trans hbound (by decide))
  -- one case for each pair of lengths
  repeat' split
  all_goals
    simp (disch := decide) only [List.cons_append, List.nil_append, List.cons_lt_cons_iff,
      UInt8.lt_iff_toNat_lt, UInt8.toNat_ofNat', ← UInt8.toNat_inj, hfits,
      Nat.add_lt_add_iff_right, Nat.add_right_cancel_iff]
  case' isFalse.isFalse.isFalse.isFalse.isFalse.isFalse =>
    exact hlex.imp_right (And.imp_right fun h => h.imp_right (And.imp_right fun h =>
      h.imp_right (And.imp_right .inl)))
  all_goals omega

/-! ## Texts -/

theorem bytes_lt_bytes {s t : String} (h : s < t) : bytes s < bytes t := by
  rw [bytes_eq_flatMap, bytes_eq_flatMap]
  have hlex : List.Lex (· < ·) s.toList t.toList := String.lt_iff_toList_lt.mp h
  generalize s.toList = cs, t.toList = ds at hlex
  induction hlex with
  | @nil d ds =>
    obtain ⟨x, xs, hx⟩ := List.exists_cons_of_ne_nil (String.utf8EncodeChar_ne_nil (c := d))
    rw [List.flatMap_cons, hx]
    exact List.nil_lt_cons x _
  | rel hcd => exact utf8EncodeChar_append_lt hcd _ _
  | cons _ ih =>
    rw [List.flatMap_cons, List.flatMap_cons]
    exact List.append_left_lt ih

/-- Texts are in the order of their bytes. -/
theorem bytes_le_bytes_iff {s t : String} : bytes s ≤ bytes t ↔ s ≤ t := by
  constructor
  · intro h
    exact String.not_lt.mp fun hlt => List.not_lt.mpr h (bytes_lt_bytes hlt)
  · intro h
    obtain hlt | rfl := lt_or_eq_of_le h
    · exact List.le_of_lt (bytes_lt_bytes hlt)
    · exact List.le_refl _

end Pipewright.Text
