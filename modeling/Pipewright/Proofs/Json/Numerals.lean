import Pipewright.Json.Printer
import Pipewright.Proofs.Text.Lines

/-!
# The shape of the text of a number

The text of a number is that of a decimal: perhaps a sign, digits, perhaps a point with digits
behind it, and perhaps an exponent with its sign.  This holds of whole numbers and of doubles, be
they written positionally or not.

* `IsDigits`: one digit or more.
* `FractionText`, `ExponentText`, `DecimalText`: the parts, and a decimal without its sign.
* `decimalText_numberText`: the text of a number.
-/

namespace Pipewright.Json

open Pipewright.Numeral

/-- One digit or more, and nothing else. -/
structure IsDigits (cs : List Char) : Prop where
  ne_nil : cs ≠ []
  isDigit : ∀ c ∈ cs, c.isDigit = true

/-- No fraction, or a point with digits behind it. -/
inductive FractionText : List Char → Prop where
  | none : FractionText []
  | some {ds : List Char} (h : IsDigits ds) : FractionText ('.' :: ds)

/-- No exponent, or one with its sign. -/
inductive ExponentText : List Char → Prop where
  | none : ExponentText []
  | some {sign : Char} {ds : List Char} (hsign : sign = '+' ∨ sign = '-') (h : IsDigits ds) :
      ExponentText ('e' :: sign :: ds)

/-- A decimal without its sign. -/
inductive DecimalText : List Char → Prop where
  | mk {whole fraction exponent : List Char} (hwhole : IsDigits whole)
      (hfraction : FractionText fraction) (hexponent : ExponentText exponent) :
      DecimalText (whole ++ (fraction ++ exponent))

namespace IsDigits

variable {cs ds : List Char}

theorem toDigits (n : Nat) : IsDigits (Nat.toDigits 10 n) :=
  ⟨Nat.toDigits_ne_nil, fun _ hc => Nat.isDigit_of_mem_toDigits (by decide) (by decide) hc⟩

theorem zero : IsDigits ['0'] :=
  ⟨List.cons_ne_nil _ _, List.forall_mem_singleton.mpr rfl⟩

/-- Digits may have zeros behind them. -/
theorem append_zeros (h : IsDigits cs) (n : Nat) : IsDigits (cs ++ List.replicate n '0') where
  ne_nil := List.append_ne_nil_of_left_ne_nil h.ne_nil _
  isDigit c hc := by
    obtain hc | hc := List.mem_append.mp hc
    · exact h.isDigit c hc
    · exact List.eq_of_mem_replicate hc ▸ rfl

/-- Digits may have zeros before them. -/
theorem zeros_append (n : Nat) (h : IsDigits cs) : IsDigits (List.replicate n '0' ++ cs) where
  ne_nil := List.append_ne_nil_of_right_ne_nil _ h.ne_nil
  isDigit c hc := by
    obtain hc | hc := List.mem_append.mp hc
    · exact List.eq_of_mem_replicate hc ▸ rfl
    · exact h.isDigit c hc

theorem take (h : IsDigits cs) (n : Nat) : IsDigits (cs.take (n + 1)) where
  ne_nil hnil := (List.take_eq_nil_iff.mp hnil).elim (Nat.succ_ne_zero n) h.ne_nil
  isDigit c hc := h.isDigit c (List.mem_of_mem_take hc)

theorem drop (h : IsDigits cs) {n : Nat} (hn : cs.drop n ≠ []) : IsDigits (cs.drop n) :=
  ⟨hn, fun c hc => h.isDigit c (List.mem_of_mem_drop hc)⟩

end IsDigits

/-- Digits alone are a decimal. -/
theorem DecimalText.digits {cs : List Char} (h : IsDigits cs) : DecimalText cs := by
  have hplain := DecimalText.mk h .none .none
  rwa [List.append_nil, List.append_nil] at hplain

/-- The layout of digits is a decimal, wherever the point stands. -/
theorem decimalText_decimalText (f : DoubleFormat) {ds : List Char} (h : IsDigits ds)
    (place : Int) : DecimalText (decimalText f ds place) := by
  rw [decimalText]
  split
  · split
    · -- nothing but zeros stands before the point
      have hall := DecimalText.mk IsDigits.zero
        (.some (h.zeros_append (-place - 1).toNat)) .none
      rwa [List.append_nil] at hall
    · have hwhole := (h.take place.toNat).append_zeros (place.toNat + 1 - ds.length)
      have hfraction : FractionText ('.' :: (if (ds.drop (place.toNat + 1)).isEmpty then ['0']
          else ds.drop (place.toNat + 1))) := by
        split
        · exact .some .zero
        · next hne => exact .some (h.drop (by simpa using hne))
      have hall := DecimalText.mk hwhole hfraction .none
      simpa only [List.append_nil, List.append_assoc, List.singleton_append] using hall
  · have hfraction : FractionText (if (ds.drop 1).isEmpty then [] else '.' :: ds.drop 1) := by
      split
      · exact .none
      · next hne => exact .some (h.drop (by simpa using hne))
    have hexponent : ExponentText ('e' :: (if place < 0 then '-' else '+') ::
        Nat.toDigits 10 place.natAbs) := by
      refine .some ?_ (.toDigits _)
      split
      · exact .inr rfl
      · exact .inl rfl
    have hall := DecimalText.mk (h.take 0) hfraction hexponent
    have hsign : (if place < 0 then ['-'] else ['+']) = [if place < 0 then '-' else '+'] := by
      split <;> rfl
    simpa only [hsign, List.append_assoc, List.singleton_append, List.cons_append,
      List.nil_append] using hall

/-- The text of a magnitude is a decimal. -/
theorem decimalText_magnitudeText (x : Magnitude) : DecimalText (magnitudeText x) := by
  rw [magnitudeText]
  split
  · exact .mk .zero (.some .zero) .none
  · exact decimalText_decimalText _ (.toDigits _) _

/-- The text of a number is a decimal, perhaps with a sign before it. -/
theorem decimalText_numberText (n : Number) : ∃ (negative : Bool) (cs : List Char),
    (numberText n).toList = (if negative then ['-'] else []) ++ cs ∧ DecimalText cs := by
  cases n with
  | natural n =>
    exact ⟨false, _, by rw [numberText, Text.toList_decimal]; rfl, .digits (.toDigits n)⟩
  | negative n =>
    refine ⟨true, _, ?_, .digits (.toDigits n)⟩
    rw [numberText, String.toList_append, Text.toList_decimal]
    rfl
  | double d =>
    exact ⟨d.negative, _, by rw [numberText, doubleText, String.toList_ofList],
      decimalText_magnitudeText d.magnitude⟩

/-- A decimal starts with a digit. -/
theorem DecimalText.exists_cons {cs : List Char} (h : DecimalText cs) :
    ∃ x rest, cs = x :: rest ∧ x.isDigit = true := by
  obtain ⟨hwhole, -, -⟩ := h
  obtain ⟨x, rest, rfl⟩ := List.exists_cons_of_ne_nil hwhole.ne_nil
  exact ⟨x, _, rfl, hwhole.isDigit x List.mem_cons_self⟩

end Pipewright.Json
