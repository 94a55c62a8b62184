import Pipewright.Json.Skip
import Pipewright.Proofs.Json.Outcomes
import Pipewright.Proofs.Json.Scalars
import Pipewright.Proofs.Json.Written

/-!
# What comes of scalars

What a string or a number is read for is told by its characters alone: a string whose escapes name
halves of characters is refused wherever it stands, and so is a number that is out of range.  When
it is stepped over, only its grammar matters.

* `Reader.heard`, `Reader.outcome_readString`, `Reader.reads_skipString`: strings.
* `Reader.numeral`, `Reader.outcome_readNumber`, `Reader.reads_skipNumber`: numbers.
-/

namespace Pipewright.Json

open Pipewright.Numeral

namespace Reader

variable {more : List Char}

/-! ## Strings -/

/-- Expecting a character at another one. -/
theorem outcome_expectInPair {x y : Char} (h : y ≠ x) (rest : List Char) :
    Outcome (expectInPair x) (y :: rest) none more := by
  refine .peek ?_
  simp only [List.cons_append, List.head?_cons, if_neg h]
  exact .of_never (.bind fun _ => .throw _ _) _ _

theorem reads_expectInPair (x : Char) (more : List Char) : Reads (expectInPair x) [x] () more := by
  refine .peek ?_
  simp only [List.cons_append, List.head?_cons, if_true]
  exact .advance x more

/-- The second escape of a pair, when there is one behind the first one, tells whether a character
is read; then the string goes on behind it. -/
theorem outcome_readPair {n : Nat} (hfirst : isFirstHalf n = true)
    (hsecond : isSecondHalf n = false) {digits cs : List Char} (hlength : digits.length = 4)
    (hdigits : fourHexDigits? digits = some n) (h : StringText cs) :
    (∀ more, Outcome readUnit (digits ++ (cs ++ ['"'])) none more) ∨
      ∃ pair rest c, cs = pair ++ rest ∧ StringText rest ∧
        ∀ more, Reads readUnit (digits ++ pair) c more := by
  have hhex := reads_readHex hlength hdigits
  cases h with
  | nil =>
    refine .inl fun more => .bind_reads (hhex _) ?_
    rw [hsecond, hfirst]
    exact .bind_stop (outcome_expectInPair (by decide) [])
  | @plain c cs _ _ hbackslash h =>
    refine .inl fun more => .bind_reads (hhex _) ?_
    rw [hsecond, hfirst]
    exact .bind_stop (outcome_expectInPair hbackslash _)
  | @letter x y cs hx h =>
    have hu : x ≠ 'u' := by
      rintro rfl
      cases hx
    refine .inl fun more => .bind_reads (hhex _) ?_
    rw [hsecond, hfirst]
    refine .bind_reads (s := ['\\']) (reads_expectInPair _ _) ?_
    exact .bind_stop (outcome_expectInPair hu _)
  | @unit digits' cs m hlength' hdigits' h =>
    have hhex' := reads_readHex hlength' hdigits'
    cases hm : isSecondHalf m with
    | true =>
      refine .inr ⟨'\\' :: 'u' :: digits', cs, pairedChar n m, by simp, h, fun more => ?_⟩
      refine .bind (hhex _) ?_
      simp only [hsecond, hfirst, Bool.false_eq_true, if_false, if_true]
      refine .bind (s := ['\\']) (reads_expectInPair _ _)
        (.bind (s := ['u']) (reads_expectInPair _ _) ((hhex' more).bind_nil ?_))
      rw [hm]
      exact .pure _ more
    | false =>
      refine .inl fun more => .bind_reads (hhex _) ?_
      simp only [hsecond, hfirst, Bool.false_eq_true, if_false, if_true, List.cons_append,
        List.append_assoc]
      refine .bind_reads (s := ['\\']) (reads_expectInPair _ _)
        (.bind_reads (s := ['u']) (reads_expectInPair _ _) (.bind_reads (hhex' _) ?_))
      rw [hm]
      exact .failHere _ _ _

/-- An escape of four digits starts the string, and tells one character, perhaps together with the
escape behind it, or none. -/
theorem outcome_readUnit {digits cs : List Char} {n : Nat} (hlength : digits.length = 4)
    (hdigits : fourHexDigits? digits = some n) (h : StringText cs) :
    (∀ more, Outcome readUnit (digits ++ (cs ++ ['"'])) none more) ∨
      ∃ pair rest c, cs = pair ++ rest ∧ StringText rest ∧
        ∀ more, Reads readUnit (digits ++ pair) c more := by
  have hhex := reads_readHex hlength hdigits
  cases hsecond : isSecondHalf n with
  | true =>
    refine .inl fun more => .bind_reads (hhex _) ?_
    rw [hsecond]
    exact .failHere _ _ _
  | false =>
    cases hfirst : isFirstHalf n with
    | true => exact outcome_readPair hfirst hsecond hlength hdigits h
    | false =>
      refine .inr ⟨[], cs, Char.ofNat n, rfl, h, fun more => ?_⟩
      rw [List.append_nil]
      refine (hhex more).bind_nil ?_
      rw [hsecond, hfirst]
      exact .pure _ more

/-- What stands between quotes is read for one text, or refused, whatever follows. -/
theorem exists_outcome_readString {cs : List Char} (h : StringText cs) :
    ∃ o, ∀ more, Outcome readString (cs ++ ['"']) o more := by
  suffices hall : ∀ n, ∀ cs : List Char, cs.length < n → StringText cs → ∀ soFar,
      ∃ o, ∀ more, Repeats _ soFar (cs ++ ['"']) o more by
    obtain ⟨o, ho⟩ := hall _ cs cs.length.lt_succ_self h []
    exact ⟨o, fun more => (ho more).outcome⟩
  intro n
  induction n with
  | zero => exact fun cs hlt => absurd hlt (Nat.not_lt_zero _)
  | succ n ih =>
    intro cs hlt h soFar
    cases h with
    | nil => exact ⟨_, fun more => .last (.peek (.advance_bind (.pure _ more)))⟩
    | @plain c cs hcontrol hquote hbackslash h =>
      obtain ⟨o, ho⟩ := ih cs (Nat.lt_of_succ_lt_succ hlt) h (c :: soFar)
      refine ⟨o, fun more => .next (f := [c]) (.peek ?_) (List.cons_ne_nil _ _) (ho more)⟩
      split
      · next hnext => cases hnext
      · next hnext => exact absurd (Option.some.inj hnext) hquote
      · next hnext => exact absurd (Option.some.inj hnext) hbackslash
      · next x _ _ hnext =>
        obtain rfl : c = x := Option.some.inj hnext
        refine .advance_bind ?_
        rw [if_neg hcontrol]
        exact .pure _ _
    | @letter x y cs hx h =>
      obtain ⟨o, ho⟩ := ih cs (by simp at hlt; omega) h (y :: soFar)
      refine ⟨o, fun more => .next (f := ['\\', x]) (.peek ?_) (List.cons_ne_nil _ _) (ho more)⟩
      exact .advance_bind ((reads_readEscape hx _).bind_nil (.pure _ _))
    | @unit digits cs n hlength hdigits h =>
      obtain hnone | ⟨pair, rest, c, rfl, hrest, hread⟩ := outcome_readUnit hlength hdigits h
      · refine ⟨none, fun more => .stop ?_⟩
        have hsplit : '\\' :: 'u' :: (digits ++ cs) ++ ['"'] =
            '\\' :: 'u' :: (digits ++ (cs ++ ['"'])) := by simp
        rw [hsplit]
        exact .peek (.advance_bind (.bind_stop (.peek (.advance_bind (hnone more)))))
      · obtain ⟨o, ho⟩ := ih rest (by simp at hlt; omega) hrest (c :: soFar)
        refine ⟨o, fun more => ?_⟩
        have hsplit : '\\' :: 'u' :: (digits ++ (pair ++ rest)) ++ ['"'] =
            ('\\' :: 'u' :: (digits ++ pair)) ++ (rest ++ ['"']) := by simp
        rw [hsplit]
        refine .next (.peek (.advance_bind ?_)) (List.cons_ne_nil _ _) (ho more)
        exact .bind_nil (.peek (.advance_bind (hread _))) (.pure _ _)

/-- The text that a string with these characters between its quotes is read for. -/
def heard (cs : List Char) : Option String :=
  alone readString (cs ++ ['"'])

theorem outcome_readString {cs : List Char} (h : StringText cs) (more : List Char) :
    Outcome readString (cs ++ ['"']) (heard cs) more :=
  outcome_alone (C := fun _ => True) trivial
    ((exists_outcome_readString h).imp fun _ ho more _ => ho more) trivial

/-- When a string is stepped over, its escapes may name anything. -/
theorem reads_skipString {cs : List Char} (h : StringText cs) (more : List Char) :
    Reads skipString (cs ++ ['"']) () more := by
  refine Repeats.outcome (o := some ()) ?_
  induction h with
  | nil => exact .last (.peek (.advance_bind (.pure _ more)))
  | @plain c cs hcontrol hquote hbackslash h ih =>
    refine .next (f := [c]) (.peek ?_) (List.cons_ne_nil _ _) ih
    split
    · next hnext => cases hnext
    · next hnext => exact absurd (Option.some.inj hnext) hquote
    · next hnext => exact absurd (Option.some.inj hnext) hbackslash
    · next x _ _ hnext =>
      obtain rfl : c = x := Option.some.inj hnext
      rw [if_neg hcontrol]
      exact .advance_bind (.pure _ _)
  | @letter x y cs hx h ih =>
    refine .next (f := ['\\', x]) (.peek (.advance_bind ?_)) (List.cons_ne_nil _ _) ih
    have hletter : Reads skipEscape [x] () (cs ++ ['"'] ++ more) := by
      refine .peek ?_
      simp only [List.cons_append, List.head?_cons, hx, Option.isSome_some, if_true]
      exact .advance x _
    exact hletter.bind_nil (.pure _ _)
  | @unit digits cs n hlength hdigits h ih =>
    have hsplit : '\\' :: 'u' :: (digits ++ cs) ++ ['"'] =
        ('\\' :: 'u' :: digits) ++ (cs ++ ['"']) := by simp
    rw [hsplit]
    refine .next (.peek (.advance_bind ?_)) (List.cons_ne_nil _ _) ih
    have hunit : Reads skipEscape ('u' :: digits) () (cs ++ ['"'] ++ more) :=
      .peek (.advance_bind ((reads_readHex hlength hdigits _).bind_nil (.pure _ _)))
    exact hunit.bind_nil (.pure _ _)

/-! ## Numbers -/

section Numbers

variable {α β : Type}

/-- What comes of the text does not depend on what follows, as long as that belongs to no number. -/
def Decides (r : Reader α) (text : List Char) : Prop :=
  ∃ o, ∀ more, Ends more → Outcome r text o more

namespace Decides

variable {r : Reader α} {text : List Char}

theorem of_never (h : Gives r fun _ => False) : Decides r text :=
  ⟨none, fun _ _ => .of_never h _ _⟩

protected theorem pure (a : α) : Decides (Pure.pure a) [] :=
  ⟨some a, fun more _ => .pure a more⟩

theorem bind_reads {f : α → Reader β} {s : List Char} {a : α}
    (hr : ∀ more, Ends more → Reads r s a (text ++ more)) (hf : Decides (f a) text) :
    Decides (r >>= f) (s ++ text) := by
  obtain ⟨o, ho⟩ := hf
  exact ⟨o, fun more hmore => .bind_reads (hr more hmore) (ho more hmore)⟩

theorem advance_bind {f : Unit → Reader β} {x : Char} (h : Decides (f ()) text) :
    Decides (Reader.advance >>= f) (x :: text) :=
  bind_reads (s := [x]) (fun _ _ => Reads.advance x _) h

/-- Looking at the next character. -/
theorem peek {f : Option Char → Reader β} {x : Char} (h : Decides (f (some x)) (x :: text)) :
    Decides (peek? >>= f) (x :: text) := by
  obtain ⟨o, ho⟩ := h
  exact ⟨o, fun more hmore => .peek (ho more hmore)⟩

/-- Looking behind the end. -/
theorem peek_nil {f : Option Char → Reader β}
    (h : ∃ o, ∀ more, Ends more → Outcome (f more.head?) [] o more) : Decides (peek? >>= f) [] := by
  obtain ⟨o, ho⟩ := h
  exact ⟨o, fun more hmore => .peek (ho more hmore)⟩

end Decides

theorem digit?_isDigit {x : Char} (hx : x.isDigit = true) : digit? x = some (x.toNat - 0x30) :=
  if_pos hx

/-- No digit follows. -/
theorem head?_bind_digit? (h : ∀ y ∈ more.head?, y.isDigit = false) :
    more.head?.bind digit? = none := by
  cases more with
  | nil => rfl
  | cons y rest => exact if_neg (by rw [h y rfl]; exact Bool.false_ne_true)

theorem decides_scaled (negative : Bool) (significand : Nat) (exponent : Int) :
    Decides (scaled negative significand exponent) [] := by
  rw [scaled]
  split
  · exact .pure _
  · exact .of_never (.failHere _ _)

theorem decides_wholeNumber (negative : Bool) (x : Digits) :
    Decides (wholeNumber negative x) [] := by
  rw [wholeNumber]
  split
  · exact decides_scaled _ _ _
  · split
    · exact .pure _
    · split
      · exact .pure _
      · exact decides_scaled _ _ _

/-- The digits of an exponent behind its sign. -/
theorem decides_readExponent (negative : Bool) (x : Digits) {sign ds : List Char}
    (hsign : sign = [] ∨ sign = ['+'] ∨ sign = ['-']) (hds : IsDigits ds) :
    Decides (readExponent negative x) (sign ++ ds) := by
  obtain ⟨hne, hall⟩ := hds
  obtain ⟨d, ds, rfl⟩ := List.exists_cons_of_ne_nil hne
  obtain ⟨hd, hdigits⟩ := List.forall_mem_cons.mp hall
  clear hne hall
  rw [readExponent]
  extract_lets rest
  have hrest : ∀ down, Decides (rest down) (d :: ds) := by
    intro down
    refine .peek ?_
    simp only [digit?_isDigit hd]
    refine .advance_bind ?_
    generalize d.toNat - 0x30 = n
    -- one digit a round, until there is none or the exponent is too great
    suffices hrounds : ∃ o, ∀ more, Ends more → Repeats _ n ds o more by
      obtain ⟨o, ho⟩ := hrounds
      exact ⟨o, fun more hmore => (ho more hmore).outcome⟩
    induction ds generalizing n with
    | nil =>
      obtain ⟨o, ho⟩ := decides_scaled negative x.significand
        (if down then x.exponent - n else x.exponent + n)
      refine ⟨o, fun more hmore => .answer (.peek ?_)⟩
      rw [List.nil_append, head?_bind_digit? fun y hy => (hmore y hy).1]
      exact .map (ho more hmore)
    | cons e ds ih =>
      obtain ⟨he, hdigits⟩ := List.forall_mem_cons.mp hdigits
      by_cases hfits : n * 10 + (e.toNat - 0x30) ≤ maxWrittenExponent
      · obtain ⟨o, ho⟩ := ih hdigits (n * 10 + (e.toNat - 0x30))
        refine ⟨o, fun more hmore => .next (f := [e]) (.peek ?_) (List.cons_ne_nil _ _)
          (ho more hmore)⟩
        simp only [List.cons_append, List.head?_cons, Option.bind_some, digit?_isDigit he,
          if_pos hfits]
        exact .advance_bind (.pure _ _)
      · by_cases hlarge : x.significand ≠ 0 ∧ !down
        · refine ⟨none, fun more hmore => .stop (.peek ?_)⟩
          simp only [List.cons_append, List.head?_cons, Option.bind_some, digit?_isDigit he,
            if_neg hfits, if_pos hlarge]
          exact .advance_bind (.failHere _ _ _)
        · refine ⟨some (.double ⟨negative, Magnitude.zero⟩), fun more hmore => .last (.peek ?_)⟩
          simp only [List.cons_append, List.head?_cons, Option.bind_some, digit?_isDigit he,
            if_neg hfits, if_neg hlarge]
          have hskipped := reads_readDigits hdigits fun y hy => (hmore y hy).1
          exact .advance_bind (hskipped.bind_nil (.pure _ more))
  have hdigit : ∀ y : Char, y.isDigit = false → some d ≠ some y := by
    rintro y hy h
    rw [← Option.some.inj h, hd] at hy
    cases hy
  rcases hsign with rfl | rfl | rfl
  · refine .peek ?_
    split
    · next hnext => exact absurd hnext (hdigit _ rfl)
    · next hnext => exact absurd hnext (hdigit _ rfl)
    · exact hrest false
  · exact .peek (.advance_bind (hrest false))
  · exact .peek (.advance_bind (hrest true))

/-- What may follow the digits before the point, or those behind it, is no digit. -/
theorem isDigit_of_scaleText {scale : List Char} (h : ScaleText scale) (hmore : Ends more) :
    ∀ y ∈ (scale ++ more).head?, y.isDigit = false := by
  cases h with
  | none => exact fun y hy => (hmore y hy).1
  | @some e sign ds he hsign hds =>
    intro y hy
    obtain rfl : e = y := Option.some.inj hy
    rcases he with rfl | rfl <;> rfl

/-- An exponent, or none. -/
theorem decides_scale {f : Option Char → Reader Number} {negative : Bool} {x : Digits}
    {scale : List Char} (h : ScaleText scale)
    (he : f (some 'e') = Reader.advance >>= fun _ => readExponent negative x)
    (hE : f (some 'E') = Reader.advance >>= fun _ => readExponent negative x)
    (hnone : ∃ o, ∀ more, Ends more → Outcome (f more.head?) [] o more) :
    Decides (peek? >>= f) scale := by
  cases h with
  | none => exact .peek_nil hnone
  | @some e sign ds hletter hsign hds =>
    have hread := decides_readExponent negative x hsign hds
    rcases hletter with rfl | rfl
    · exact .peek (he ▸ .advance_bind hread)
    · exact .peek (hE ▸ .advance_bind hread)

theorem decides_readAfterFraction (negative : Bool) (x : Digits) {scale : List Char}
    (h : ScaleText scale) : Decides (readAfterFraction negative x) scale := by
  refine decides_scale h rfl rfl ?_
  obtain ⟨o, ho⟩ := decides_scaled negative x.significand x.exponent
  refine ⟨o, fun more hmore => ?_⟩
  split
  · next hnext => exact absurd (hmore _ hnext).2 (by decide)
  · next hnext => exact absurd (hmore _ hnext).2 (by decide)
  · exact ho more hmore

/-- A fraction and what follows it, behind the point. -/
theorem decides_readFraction (negative : Bool) (x : Digits) {ds scale : List Char}
    (hds : IsDigits ds) (h : ScaleText scale) :
    Decides (readFraction negative x) (ds ++ scale) := by
  refine .bind_reads (fun more hmore =>
    reads_readDigits hds.isDigit (isDigit_of_scaleText h hmore)) ?_
  rw [if_neg (by simpa using hds.ne_nil)]
  exact decides_readAfterFraction negative _ h

/-- What follows the digits before the point. -/
theorem decides_readAfterWhole (negative : Bool) (x : Digits) {fraction scale : List Char}
    (hfraction : FractionText fraction) (hscale : ScaleText scale) :
    Decides (readAfterWhole negative x) (fraction ++ scale) := by
  cases hfraction with
  | some hds => exact .peek (.advance_bind (decides_readFraction negative x hds hscale))
  | none =>
    refine decides_scale hscale rfl rfl ?_
    obtain ⟨o, ho⟩ := decides_wholeNumber negative x
    refine ⟨o, fun more hmore => ?_⟩
    split
    · next hnext => exact absurd (hmore _ hnext).2 (by decide)
    · next hnext => exact absurd (hmore _ hnext).2 (by decide)
    · next hnext => exact absurd (hmore _ hnext).2 (by decide)
    · exact ho more hmore

/-- What may follow the digits before the point is no digit. -/
theorem isDigit_of_fractionText {fraction scale : List Char} (hfraction : FractionText fraction)
    (hscale : ScaleText scale) (hmore : Ends more) :
    ∀ y ∈ (fraction ++ scale ++ more).head?, y.isDigit = false := by
  cases hfraction with
  | none => exact isDigit_of_scaleText hscale hmore
  | some => exact fun y hy => Option.some.inj hy ▸ rfl

/-- The text of a number behind its sign is read for one number, or refused. -/
theorem decides_readNumber (negative : Bool) {cs : List Char} (h : MagnitudeText cs) :
    Decides (readNumber negative) cs := by
  obtain @⟨whole, fraction, scale, hwhole, hfraction, hscale⟩ := h
  cases hwhole with
  | zero =>
    obtain ⟨o, ho⟩ := decides_readAfterWhole negative ⟨0, 0, false⟩ hfraction hscale
    refine ⟨o, fun more hmore => .peek (.advance_bind (.peek ?_))⟩
    show Outcome (if ((fraction ++ scale ++ more).head?.bind digit?).isSome = true then _ else _)
      (fraction ++ scale) o more
    rw [head?_bind_digit? (isDigit_of_fractionText hfraction hscale hmore)]
    exact ho more hmore
  | @digits x ds hx hds =>
    refine .peek ?_
    split
    · next hnext => cases hnext
    · next hnext => exact absurd (Option.some.inj hnext) hx
    · next y _ hnext =>
      obtain rfl : x = y := Option.some.inj hnext
      rw [digit?_isDigit (hds.isDigit x List.mem_cons_self)]
      have hdigits : ∀ more, Ends more → Reads readDigits (x :: ds)
          ((x :: ds).map fun c => c.toNat - 0x30) (fraction ++ scale ++ more) := fun more hmore =>
        reads_readDigits hds.isDigit (isDigit_of_fractionText hfraction hscale hmore)
      exact .bind_reads hdigits (decides_readAfterWhole negative _ hfraction hscale)

/-- The number that the characters of a number are read for. -/
def numeral : List Char → Option Number
  | '-' :: cs => alone (readNumber true) cs
  | cs => alone (readNumber false) cs

theorem numeral_of_ne {x : Char} (hx : x ≠ '-') (cs : List Char) :
    numeral (x :: cs) = alone (readNumber false) (x :: cs) := by
  rw [numeral]
  exact fun _ h => hx (List.cons.inj h).1

theorem isDigit_of_digit? {x : Char} (h : (digit? x).isSome = true) : x.isDigit = true := by
  by_contra hx
  rw [digit?, if_neg hx] at h
  cases h

theorem outcome_readNumber {negative : Bool} {cs : List Char} (h : MagnitudeText cs)
    (hmore : Ends more) :
    Outcome (readNumber negative) cs (alone (readNumber negative) cs) more :=
  outcome_alone ends_nil (decides_readNumber negative h) hmore

/-- Digits are stepped over as far as they go. -/
theorem reads_skipDigit {x : Char} (hx : x.isDigit = true) (more : List Char) :
    Reads skipDigit [x] () more := by
  intro offset
  have hget : (get : Reader Cursor) (.facing offset ([x] ++ more)) =
    .ok (.facing offset ([x] ++ more), .facing offset ([x] ++ more)) := rfl
  rw [skipDigit, bind_of_ok hget]
  simp only [Cursor.rest_facing, List.cons_append, List.nil_append, List.head?_cons,
    digit?_isDigit hx, Option.isSome_some, if_true]
  exact Reads.advance x more offset

theorem reads_skipExponent {sign ds : List Char} (hsign : sign = [] ∨ sign = ['+'] ∨ sign = ['-'])
    (hds : IsDigits ds) (hmore : Ends more) : Reads skipExponent (sign ++ ds) () more := by
  obtain ⟨hne, hall⟩ := hds
  obtain ⟨d, ds, rfl⟩ := List.exists_cons_of_ne_nil hne
  obtain ⟨hd, hdigits⟩ := List.forall_mem_cons.mp hall
  have hplain : ∀ y : Char, y.isDigit = false → some d ≠ some y := by
    rintro y hy h
    rw [← Option.some.inj h, hd] at hy
    cases hy
  have hskipped := reads_readDigits hdigits fun y hy => (hmore y hy).1
  rw [skipExponent]
  extract_lets rest
  have hrest : Reads (rest ()) (d :: ds) () more :=
    .bind (s := [d]) (reads_skipDigit hd _) (hskipped.bind_nil (.pure () more))
  rcases hsign with rfl | rfl | rfl
  · refine .peek ?_
    split
    · next hnext => exact absurd hnext (hplain _ rfl)
    · next hnext => exact absurd hnext (hplain _ rfl)
    · exact hrest
  · exact .peek (.advance_bind hrest)
  · exact .peek (.advance_bind hrest)

theorem reads_skipAfterDigits {scale : List Char} (h : ScaleText scale) (hmore : Ends more) :
    Reads skipAfterDigits scale () more := by
  refine .peek ?_
  cases h with
  | none =>
    rw [List.nil_append]
    split
    · next hnext => exact absurd (hmore _ hnext).2 (by decide)
    · next hnext => exact absurd (hmore _ hnext).2 (by decide)
    · exact .pure () more
  | @some e sign ds he hsign hds =>
    have hread := reads_skipExponent hsign hds hmore
    rcases he with rfl | rfl
    · exact .advance_bind hread
    · exact .advance_bind hread

/-- When a number is stepped over, it may be of any size. -/
theorem reads_skipNumber {cs : List Char} (h : MagnitudeText cs) (hmore : Ends more) :
    Reads skipNumber cs () more := by
  obtain @⟨whole, fraction, scale, hwhole, hfraction, hscale⟩ := h
  have hnext := isDigit_of_fractionText hfraction hscale hmore
  rw [skipNumber]
  extract_lets last rest
  have hrest : Reads (rest ()) (fraction ++ scale) () more := by
    refine .peek ?_
    cases hfraction with
    | none =>
      have hpoint : (scale ++ more).head? ≠ some '.' := by
        cases hscale with
        | none => exact fun hpoint => (hmore _ hpoint).2 (by decide)
        | some he => rcases he with rfl | rfl <;> exact fun hpoint => by cases hpoint
      rw [List.nil_append, if_neg hpoint]
      exact reads_skipAfterDigits hscale hmore
    | @some ds hds =>
      refine .advance_bind (.bind (reads_readDigits hds.isDigit ?_) ?_)
      · exact isDigit_of_scaleText hscale hmore
      · rw [if_neg (by simpa using hds.ne_nil)]
        exact reads_skipAfterDigits hscale hmore
  refine .peek ?_
  cases hwhole with
  | zero =>
    refine .bind (s := ['0']) (reads_skipDigit rfl _) ?_
    refine .peek ?_
    rw [head?_bind_digit? hnext]
    exact hrest
  | @digits x ds hx hds =>
    have hdigits := List.forall_mem_cons.mp hds.isDigit
    have hfirst : ((x :: ds) ++ (fraction ++ scale) ++ more).head? ≠ some '0' :=
      fun h => hx (Option.some.inj h)
    rw [if_neg hfirst]
    refine .bind (s := [x]) (reads_skipDigit hdigits.1 _) ?_
    exact .bind (reads_readDigits hdigits.2 hnext) hrest

end Numbers

end Reader

end Pipewright.Json
