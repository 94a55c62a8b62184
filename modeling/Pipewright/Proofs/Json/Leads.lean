import Mathlib.Data.List.TakeWhile
import Pipewright.Proofs.Json.Tokens

/-!
# Where readers lead

A reader that goes on has stepped over a piece of its text.  What that piece is made of follows
from the steps of the reader: each of them relates what was there before to what is left, and
together they show the piece to be in the grammar.  Nothing is said about readers that stop.

* `Reader.Leads`: what is left of the text, and the result.
* `Reader.Leads.bind`, `Reader.Leads.afterBlanks`, `Reader.Leads.iterate`: the steps of a reader.
* `Reader.Past`: a piece of some kind has been stepped over.
* `Reader.leads_readString`, `Reader.leads_skipString`: strings.
* `Reader.leads_readNumber`, `Reader.leads_skipNumber`: numbers.
-/

namespace Pipewright.Json

namespace Reader

variable {α β σ : Type} {r : Reader α} {text : List Char}

/-- Whenever the reader goes on from the text, its result and what is then left are related. -/
def Leads (r : Reader α) (text : List Char) (Q : α → List Char → Prop) : Prop :=
  ∀ c a c', c.rest = text → r c = .ok (a, c') → Q a c'.rest

/-- What a round shows when those behind it show `Q`: with an answer that is `Q` itself, and
otherwise it is the step from the `Q` of what comes next. -/
def Onwards (Q : σ → List Char → α → List Char → Prop) (s : σ) (text : List Char) :
    σ ⊕ α → List Char → Prop
  | .inl t, rest => ∀ a more, Q t rest a more → Q s text a more
  | .inr a, rest => Q s text a rest

namespace Leads

variable {P Q : α → List Char → Prop} {R : β → List Char → Prop}

/-- A reader that gives nothing leads anywhere. -/
theorem of_never (h : Gives r fun _ => False) : Leads r text Q :=
  fun c a c' _ hread => (h c a c' hread).elim

/-- What the reader gives has the property wherever it leads. -/
theorem of_gives {p : α → Prop} (h : Gives r p) : Leads r text fun a _ => p a :=
  fun c a c' _ hread => h c a c' hread

theorem failHere (issue : Issue) : Leads (Reader.failHere issue : Reader α) text Q :=
  of_never (.failHere _ _)

theorem failAtNext (issue : Issue) : Leads (Reader.failAtNext issue : Reader α) text Q :=
  of_never (.failAtNext _ _)

theorem failOpen (issue : Issue) : Leads (Reader.failOpen issue : Reader α) text Q :=
  of_never (.failOpen _ _)

protected theorem pure {a : α} (h : Q a text) : Leads (Pure.pure a) text Q := by
  rintro c a c' rfl hread
  cases hread
  exact h

theorem mono (h : Leads r text P) (hPQ : ∀ a rest, P a rest → Q a rest) : Leads r text Q :=
  fun c a c' hc hread => hPQ a c'.rest (h c a c' hc hread)

/-- The second of two readers starts where the first one leads. -/
protected theorem bind {f : α → Reader β} (hr : Leads r text P)
    (hf : ∀ a rest, P a rest → Leads (f a) rest R) : Leads (r >>= f) text R := by
  intro c b c' hc hread
  obtain ⟨a, d, ha, hb⟩ := exists_of_bind_ok hread
  exact hf a d.rest (hr c a d hc ha) d b c' rfl hb

/-- When the first reader gives nothing, the second one does not matter. -/
theorem bind_stop {f : α → Reader β} (hr : Gives r fun _ => False) : Leads (r >>= f) text R :=
  .bind (P := fun _ _ => False) (of_never hr) fun _ _ h => h.elim

theorem get {f : Cursor → Reader β} (h : ∀ c, c.rest = text → Leads (f c) text R) :
    Leads (MonadState.get >>= f) text R :=
  fun c b c' hc hread => h c hc c b c' hc hread

theorem set {f : Unit → Reader β} {c : Cursor} (h : Leads (f ()) c.rest R) :
    Leads (MonadStateOf.set c >>= f) text R :=
  fun _ b c' _ hread => h c b c' rfl hread

/-- Looking at the next character. -/
theorem peek {f : Option Char → Reader β} (h : Leads (f text.head?) text R) :
    Leads (peek? >>= f) text R := by
  rintro c b c' rfl hread
  exact h c b c' rfl hread

/-- Stepping over the next character. -/
theorem advance_bind {f : Unit → Reader β} {x : Char} (h : Leads (f ()) text R) :
    Leads (Reader.advance >>= f) (x :: text) R := by
  intro c b c' hc hread
  refine h c.advance b c' ?_ hread
  rw [Cursor.advance, hc]

theorem advance {x : Char} {Q : Unit → List Char → Prop} (h : Q () text) :
    Leads Reader.advance (x :: text) Q :=
  advance_bind (f := Pure.pure) (.pure h)

/-- Looking at the next character after blanks. -/
theorem afterBlanks {f : Option Char → Reader β}
    (h : ∀ blanks rest, Blanks blanks → text = blanks ++ rest → Leads (f rest.head?) rest R) :
    Leads (peekAfterBlanks? >>= f) text R := by
  rintro c b c' rfl hread
  let blanks := c.rest.takeWhile fun x => decide (x ∈ [' ', '\t', '\n', '\r'])
  have hsplit : c.rest = blanks ++ c.rest.drop blanks.length :=
    (List.prefix_iff_eq_append.mp (List.takeWhile_prefix _)).symm
  have hblanks : Blanks blanks := fun x hx => of_decide_eq_true
    (List.mem_takeWhile_imp (p := fun x => decide (x ∈ [' ', '\t', '\n', '\r'])) hx)
  exact h blanks _ hblanks hsplit c.skipBlanks b c' rfl hread

/-- Settling faults leads to the same place. -/
theorem settling {settle : Cursor → Cursor} (h : Leads r text Q) :
    Leads (Reader.settling settle r) text Q := by
  intro c a c' hc hread
  rw [Reader.settling] at hread
  split at hread
  · cases hread
  · exact h c a c' hc hread

/-- Rounds lead where each of them leads from where those behind it lead. -/
theorem iterate {round : σ → Reader (σ ⊕ α)} {Q : σ → List Char → α → List Char → Prop}
    (hround : ∀ s text, Leads (round s) text (Onwards Q s text)) (s : σ) (text : List Char) :
    Leads (Reader.iterate round s) text (Q s text) := by
  have hgo : ∀ n s text, Leads (iterate.go round n s) text (Q s text) := by
    intro n
    induction n with
    | zero => exact fun _ _ => failAtNext _
    | succ n ih =>
      intro s text
      refine .bind (hround s text) fun answer rest hanswer => ?_
      cases answer with
      | inl t => exact (ih t rest).mono hanswer
      | inr a => exact .pure hanswer
  exact fun c a c' hc hread => hgo _ s text c a c' hc hread

/-- What a whole text leads to. -/
theorem of_run {source : String} {a : α} {p : Prop} (h : Leads r source.toList fun _ _ => p)
    (ha : run r source = .ok a) : p := by
  rw [run] at ha
  split at ha
  · next b c hread => exact h _ b c rfl hread
  · cases ha
  · cases ha

end Leads

/-! ## Pieces -/

/-- A piece of the kind stands at the start of the text, and then the rest. -/
def Past (p : List Char → Prop) (text rest : List Char) : Prop :=
  ∃ s, p s ∧ text = s ++ rest

namespace Past

variable {p q r : List Char → Prop} {more rest : List Char}

theorem of_eq (h : p []) (heq : text = rest) : Past p text rest :=
  ⟨[], h, heq⟩

theorem mono (hp : Past p text rest) (h : ∀ s, p s → q s) : Past q text rest := by
  obtain ⟨s, hs, rfl⟩ := hp
  exact ⟨s, h s hs, rfl⟩

/-- A character in front of a piece. -/
theorem cons {x : Char} (hp : Past p text rest) (h : ∀ s, p s → q (x :: s)) :
    Past q (x :: text) rest := by
  obtain ⟨s, hs, rfl⟩ := hp
  exact ⟨x :: s, h s hs, rfl⟩

/-- A piece behind another one. -/
theorem append (hp : Past p text more) (hq : Past q more rest)
    (h : ∀ s t, p s → q t → r (s ++ t)) : Past r text rest := by
  obtain ⟨s, hs, rfl⟩ := hp
  obtain ⟨t, ht, rfl⟩ := hq
  exact ⟨s ++ t, h s t hs ht, (List.append_assoc _ _ _).symm⟩

end Past

/-! ## Strings -/

/-- Four hexadecimal digits. -/
def HexText (cs : List Char) : Prop :=
  cs.length = 4 ∧ ∃ n, fourHexDigits? cs = some n

theorem past_of_fourHexDigits? {n : Nat} (h : fourHexDigits? text = some n) :
    Past HexText text (text.drop 4) := by
  match text, h with
  | a :: b :: c :: d :: rest, h => exact ⟨[a, b, c, d], ⟨rfl, n, h⟩, rfl⟩

theorem leads_readHex (text : List Char) :
    Leads readHex text fun _ rest => Past HexText text rest := by
  refine .get fun c hc => ?_
  subst hc
  dsimp only
  split
  · exact .bind_stop (.throw _ _)
  · split
    · next n hn => exact .set (.pure (past_of_fourHexDigits? hn))
    · exact .of_never (.throw _ _)

/-- What follows the backslash of an escape makes it a part of strings. -/
def EscapeText (cs : List Char) : Prop :=
  ∀ ds, StringText ds → StringText ('\\' :: (cs ++ ds))

namespace EscapeText

theorem letter {x y : Char} (h : escaped? x = some y) : EscapeText [x] :=
  fun _ hds => .letter h hds

theorem unit {digits : List Char} (h : HexText digits) : EscapeText ('u' :: digits) := by
  obtain ⟨hlength, n, hdigits⟩ := h
  exact fun _ hds => .unit hlength hdigits hds

/-- An escape behind another one. -/
theorem append {cs ds : List Char} (hcs : EscapeText cs) (hds : EscapeText ds) :
    EscapeText (cs ++ '\\' :: ds) := by
  intro es hes
  rw [List.append_assoc]
  exact hcs _ (hds es hes)

end EscapeText

/-- An escape in front of a string. -/
theorem Past.escape {rest more : List Char} (h : Past EscapeText text rest)
    (hrest : Past StringText rest more) : Past StringText ('\\' :: text) more := by
  obtain ⟨cs, hcs, rfl⟩ := h
  obtain ⟨ds, hds, rfl⟩ := hrest
  exact ⟨'\\' :: (cs ++ ds), hcs ds hds, by simp⟩

theorem leads_expectInPair (x : Char) (text : List Char) :
    Leads (expectInPair x) text fun _ rest => text = x :: rest := by
  refine .peek ?_
  cases text with
  | nil => exact .failHere _
  | cons y text =>
    rw [List.head?_cons]
    dsimp only
    split
    · next hxy => exact .advance (hxy ▸ rfl)
    · exact .of_never (.bind fun _ => .throw _ _)

/-- The digits of a unit are read, or those of a pair. -/
theorem leads_readUnit (text : List Char) :
    Leads readUnit text fun _ rest => Past EscapeText ('u' :: text) rest := by
  refine .bind (leads_readHex text) fun n rest hfirst => ?_
  split
  · exact .failHere _
  · split
    · refine .bind (leads_expectInPair '\\' rest) fun _ _ h => ?_
      subst h
      refine .bind (leads_expectInPair 'u' _) fun _ more h => ?_
      subst h
      refine .bind (leads_readHex more) fun m last hsecond => ?_
      split
      · obtain ⟨digits, hdigits, rfl⟩ := hfirst
        obtain ⟨digits', hdigits', rfl⟩ := hsecond
        exact .pure ⟨_, (EscapeText.unit hdigits).append (.unit hdigits'), by simp⟩
      · exact .failHere _
    · exact .pure (hfirst.cons fun _ hdigits => .unit hdigits)

theorem leads_readEscape (text : List Char) :
    Leads readEscape text fun _ rest => Past EscapeText text rest := by
  refine .peek ?_
  cases text with
  | nil => exact .failHere _
  | cons x text =>
    rw [List.head?_cons]
    dsimp only
    split
    · next y hx => exact .advance_bind (.pure ⟨[x], .letter hx, rfl⟩)
    · split
      · next hx =>
        subst hx
        exact .advance_bind (leads_readUnit text)
      · exact .of_never (.bind fun _ => .throw _ _)

theorem leads_skipEscape (text : List Char) :
    Leads skipEscape text fun _ rest => Past EscapeText text rest := by
  refine .peek ?_
  cases text with
  | nil => exact .failHere _
  | cons x text =>
    rw [List.head?_cons]
    dsimp only
    split
    · next hx =>
      obtain ⟨y, hy⟩ := Option.isSome_iff_exists.mp hx
      exact .advance ⟨[x], .letter hy, rfl⟩
    · split
      · next hx =>
        subst hx
        refine .advance_bind (.bind (leads_readHex text) fun _ _ h => .pure ?_)
        exact h.cons fun _ hdigits => .unit hdigits
      · exact .of_never (.bind fun _ => .throw _ _)

/-- A string is read up to its closing quote. -/
theorem leads_readString (text : List Char) :
    Leads readString text fun _ rest => Past StringText text ('"' :: rest) := by
  refine Leads.iterate (Q := fun _ text _ rest => Past StringText text ('"' :: rest))
    (fun soFar text => .peek ?_) [] text
  cases text with
  | nil => exact .failHere _
  | cons x text =>
    rw [List.head?_cons]
    dsimp only
    split
    · next hnext => cases hnext
    · next hnext =>
      cases hnext
      exact .advance_bind (.pure (.of_eq .nil rfl))
    · next hnext =>
      cases hnext
      exact .advance_bind (.bind (leads_readEscape text) fun _ rest h => .pure fun _ _ => h.escape)
    · next hquote hbackslash hnext =>
      cases hnext
      refine .advance_bind ?_
      split
      · exact .failHere _
      · next hcontrol =>
        exact .pure fun _ _ h => h.cons fun _ hcs =>
          .plain hcontrol (fun h => hquote (h ▸ rfl)) (fun h => hbackslash (h ▸ rfl)) hcs

theorem leads_skipString (text : List Char) :
    Leads skipString text fun _ rest => Past StringText text ('"' :: rest) := by
  refine Leads.iterate (Q := fun _ text _ rest => Past StringText text ('"' :: rest))
    (fun _ text => .peek ?_) () text
  cases text with
  | nil => exact .failHere _
  | cons x text =>
    rw [List.head?_cons]
    dsimp only
    split
    · next hnext => cases hnext
    · next hnext =>
      cases hnext
      exact .advance_bind (.pure (.of_eq .nil rfl))
    · next hnext =>
      cases hnext
      exact .advance_bind (.bind (leads_skipEscape text) fun _ rest h => .pure fun _ _ => h.escape)
    · next hquote hbackslash hnext =>
      cases hnext
      split
      · exact .bind_stop (.failHere _ _)
      · next hcontrol =>
        exact .advance_bind (.pure fun _ _ h => h.cons fun _ hcs =>
          .plain hcontrol (fun h => hquote (h ▸ rfl)) (fun h => hbackslash (h ▸ rfl)) hcs)

/-! ## Words and numbers -/

theorem leads_readWord (word text : List Char) :
    Leads (readWord word) text fun _ rest => text = word ++ rest := by
  induction word generalizing text with
  | nil => exact .pure rfl
  | cons x word ih =>
    refine .peek ?_
    cases text with
    | nil => exact .failHere _
    | cons y text =>
      rw [List.head?_cons]
      dsimp only
      split
      · next hxy =>
        subst hxy
        exact .advance_bind ((ih text).mono fun _ rest h => h ▸ rfl)
      · exact .of_never (.bind fun _ => .throw _ _)

/-- Digits, perhaps none. -/
def DigitRun (cs : List Char) : Prop :=
  ∀ c ∈ cs, c.isDigit = true

theorem DigitRun.isDigits {cs : List Char} {ds : List Nat} (h : DigitRun cs)
    (hlength : cs.length = ds.length) (hds : ¬ ds.isEmpty) : IsDigits cs := by
  refine ⟨?_, h⟩
  rintro rfl
  exact hds (List.isEmpty_iff_length_eq_zero.mpr hlength.symm)

theorem DigitRun.isDigits_cons {x : Char} {cs : List Char} (hx : x.isDigit = true)
    (h : DigitRun cs) : IsDigits (x :: cs) :=
  ⟨List.cons_ne_nil _ _, List.forall_mem_cons.mpr ⟨hx, h⟩⟩

theorem digitRun_takeWhile (text : List Char) : DigitRun (text.takeWhile Char.isDigit) :=
  fun _ hx => List.mem_takeWhile_imp hx

/-- Digits are read as long as there are any. -/
theorem leads_takeDigits (text : List Char) : Leads readDigits text fun ds rest =>
    (text.takeWhile Char.isDigit).length = ds.length ∧
      text = text.takeWhile Char.isDigit ++ rest := by
  refine .get fun c hc => ?_
  subst hc
  extract_lets ds
  have hds : ds = (c.rest.takeWhile Char.isDigit).map fun x => x.toNat - 0x30 :=
    filterMap_digit? (digitRun_takeWhile c.rest)
  have hlength : ds.length = (c.rest.takeWhile Char.isDigit).length := by rw [hds, List.length_map]
  refine .set (.pure ⟨hlength.symm, ?_⟩)
  rw [hlength]
  exact (List.prefix_iff_eq_append.mp (List.takeWhile_prefix _)).symm

theorem leads_readDigits (text : List Char) : Leads readDigits text fun ds rest =>
    Past (fun cs => DigitRun cs ∧ cs.length = ds.length) text rest :=
  (leads_takeDigits text).mono fun _ _ h => ⟨_, ⟨digitRun_takeWhile text, h.1⟩, h.2⟩

theorem leads_scaled (negative : Bool) (significand : Nat) (exponent : Int) (text : List Char) :
    Leads (scaled negative significand exponent) text fun _ rest => text = rest := by
  rw [scaled]
  split
  · exact .pure rfl
  · exact .failHere _

/-- Digits that may have a sign. -/
inductive SignedText : List Char → Prop where
  | bare {ds : List Char} (h : IsDigits ds) : SignedText ds
  | plus {ds : List Char} (h : IsDigits ds) : SignedText ('+' :: ds)
  | minus {ds : List Char} (h : IsDigits ds) : SignedText ('-' :: ds)

theorem SignedText.scale {e : Char} {cs : List Char} (he : e = 'e' ∨ e = 'E') (h : SignedText cs) :
    ScaleText (e :: cs) := by
  cases h with
  | bare h => exact .some he (.inl rfl) h
  | plus h => exact .some he (.inr (.inl rfl)) h
  | minus h => exact .some he (.inr (.inr rfl)) h

/-- An exponent is read behind its letter. -/
theorem leads_readExponent (negative : Bool) (x : Digits) (text : List Char) :
    Leads (readExponent negative x) text fun _ rest => Past SignedText text rest := by
  refine .peek ?_
  extract_lets rest
  have hdigits : ∀ down text, Leads (rest down) text fun _ rest => Past IsDigits text rest := by
    intro down text
    refine .peek ?_
    cases text with
    | nil => exact .failHere _
    | cons y text =>
      rw [List.head?_cons]
      dsimp only
      split
      · exact .of_never (.bind fun _ => .throw _ _)
      · next d hd =>
        have hy : y.isDigit = true := isDigit_of_digit? (hd ▸ rfl)
        refine .advance_bind (.mono (P := fun _ rest => Past DigitRun text rest) ?_ fun _ _ h =>
          h.cons fun _ hcs => hcs.isDigits_cons hy)
        refine .iterate (Q := fun _ text _ rest => Past DigitRun text rest)
          (fun n text => .peek ?_) d text
        split
        · exact .bind (leads_scaled _ _ _ text) fun _ rest h =>
            .pure (.of_eq (List.forall_mem_nil _) h)
        · next e he =>
          obtain ⟨z, hnext, hdigit⟩ := Option.bind_eq_some_iff.mp he
          obtain ⟨more, rfl⟩ := List.head?_eq_some_iff.mp hnext
          have hz : z.isDigit = true := isDigit_of_digit? (hdigit ▸ rfl)
          refine .advance_bind ?_
          split
          · exact .pure fun _ _ h => h.cons fun _ hcs => List.forall_mem_cons.mpr ⟨hz, hcs⟩
          · split
            · exact .failHere _
            · exact .bind (leads_readDigits more) fun _ _ h =>
                .pure (h.cons fun _ hcs => List.forall_mem_cons.mpr ⟨hz, hcs.1⟩)
  split
  · next hsign =>
    obtain ⟨text, rfl⟩ := List.head?_eq_some_iff.mp hsign
    exact .advance_bind ((hdigits false text).mono fun _ _ h => h.cons fun _ => .plus)
  · next hsign =>
    obtain ⟨text, rfl⟩ := List.head?_eq_some_iff.mp hsign
    exact .advance_bind ((hdigits true text).mono fun _ _ h => h.cons fun _ => .minus)
  · exact (hdigits false text).mono fun _ _ h => h.mono fun _ => .bare

theorem leads_readAfterFraction (negative : Bool) (x : Digits) (text : List Char) :
    Leads (readAfterFraction negative x) text fun _ rest => Past ScaleText text rest := by
  refine .peek ?_
  split
  · next hnext =>
    obtain ⟨text, rfl⟩ := List.head?_eq_some_iff.mp hnext
    refine .advance_bind ((leads_readExponent negative x text).mono fun _ _ h => ?_)
    exact h.cons fun _ hcs => hcs.scale (.inl rfl)
  · next hnext =>
    obtain ⟨text, rfl⟩ := List.head?_eq_some_iff.mp hnext
    refine .advance_bind ((leads_readExponent negative x text).mono fun _ _ h => ?_)
    exact h.cons fun _ hcs => hcs.scale (.inr rfl)
  · exact (leads_scaled _ _ _ text).mono fun _ rest h => .of_eq .none h

/-- What may follow the digits before the point. -/
inductive TailText : List Char → Prop where
  | mk {fraction scale : List Char} (hfraction : FractionText fraction) (hscale : ScaleText scale) :
      TailText (fraction ++ scale)

theorem TailText.of_scale {cs : List Char} (h : ScaleText cs) : TailText cs :=
  .mk .none h

theorem TailText.magnitude {whole cs : List Char} (hwhole : WholeText whole) (h : TailText cs) :
    MagnitudeText (whole ++ cs) := by
  obtain ⟨hfraction, hscale⟩ := h
  exact .mk hwhole hfraction hscale

/-- Digits behind a point, and perhaps an exponent. -/
theorem Past.fraction {ds : List Nat} {more rest : List Char}
    (hdigits : Past (fun cs => DigitRun cs ∧ cs.length = ds.length) text more) (hds : ¬ ds.isEmpty)
    (h : Past ScaleText more rest) : Past TailText ('.' :: text) rest := by
  have hfraction : Past FractionText ('.' :: text) more :=
    hdigits.cons fun _ hcs => .some (hcs.1.isDigits hcs.2 hds)
  exact hfraction.append h fun _ _ => .mk

theorem leads_readFraction (negative : Bool) (x : Digits) (text : List Char) :
    Leads (readFraction negative x) text fun _ rest => Past TailText ('.' :: text) rest := by
  refine .bind (leads_readDigits text) fun ds rest hdigits => ?_
  split
  · refine .of_never (.bind fun next => ?_)
    split
    · exact .failAtNext _ _
    · exact .failAtNext _ _
  · next hds => exact (leads_readAfterFraction negative _ rest).mono fun _ _ => hdigits.fraction hds

theorem leads_wholeNumber (negative : Bool) (x : Digits) (text : List Char) :
    Leads (wholeNumber negative x) text fun _ rest => text = rest := by
  rw [wholeNumber]
  split
  · exact leads_scaled _ _ _ text
  · split
    · exact .pure rfl
    · split
      · exact .pure rfl
      · exact leads_scaled _ _ _ text

theorem leads_readAfterWhole (negative : Bool) (x : Digits) (text : List Char) :
    Leads (readAfterWhole negative x) text fun _ rest => Past TailText text rest := by
  refine .peek ?_
  split
  · next hnext =>
    obtain ⟨text, rfl⟩ := List.head?_eq_some_iff.mp hnext
    exact .advance_bind (leads_readFraction negative x text)
  · next hnext =>
    obtain ⟨text, rfl⟩ := List.head?_eq_some_iff.mp hnext
    refine .advance_bind ((leads_readExponent negative x text).mono fun _ _ h => ?_)
    exact h.cons fun _ hcs => .of_scale (hcs.scale (.inl rfl))
  · next hnext =>
    obtain ⟨text, rfl⟩ := List.head?_eq_some_iff.mp hnext
    refine .advance_bind ((leads_readExponent negative x text).mono fun _ _ h => ?_)
    exact h.cons fun _ hcs => .of_scale (hcs.scale (.inr rfl))
  · exact (leads_wholeNumber negative x text).mono fun _ _ h => .of_eq (.of_scale .none) h

/-- A number is read behind its sign. -/
theorem leads_readNumber (negative : Bool) (text : List Char) :
    Leads (readNumber negative) text fun _ rest => Past MagnitudeText text rest := by
  refine .peek ?_
  split
  · exact .failHere _
  · next hnext =>
    obtain ⟨text, rfl⟩ := List.head?_eq_some_iff.mp hnext
    refine .advance_bind (.peek ?_)
    split
    · exact .failAtNext _
    · exact (leads_readAfterWhole negative _ text).mono fun _ _ h =>
        h.cons fun _ hcs => hcs.magnitude .zero
  · next x hzero hnext =>
    obtain ⟨text, rfl⟩ := List.head?_eq_some_iff.mp hnext
    split
    · next hdigit =>
      have hx : x.isDigit = true := isDigit_of_digit? hdigit
      refine .bind (leads_takeDigits _) fun ds rest hdigits => ?_
      rw [List.takeWhile_cons_of_pos hx] at hdigits
      have hdigit : IsDigits (x :: text.takeWhile Char.isDigit) :=
        (digitRun_takeWhile text).isDigits_cons hx
      have hwhole : Past WholeText (x :: text) rest :=
        ⟨_, .digits (fun h => hzero (h ▸ rfl)) hdigit, hdigits.2⟩
      refine (leads_readAfterWhole negative _ rest).mono fun _ _ h => ?_
      exact hwhole.append h fun _ _ hwhole htail => htail.magnitude hwhole
    · exact .of_never (.bind fun _ => .throw _ _)

/-- A digit is stepped over. -/
theorem leads_skipDigit (text : List Char) : Leads skipDigit text fun _ rest =>
    ∃ x, x.isDigit = true ∧ text = x :: rest := by
  refine .get fun c hc => ?_
  subst hc
  split
  · exact .failHere _
  · next x hnext =>
    obtain ⟨text, htext⟩ := List.head?_eq_some_iff.mp hnext
    rw [htext]
    split
    · next hx => exact .advance ⟨x, isDigit_of_digit? hx, rfl⟩
    · exact .of_never (.throw _ _)

theorem leads_skipExponent (text : List Char) :
    Leads skipExponent text fun _ rest => Past SignedText text rest := by
  rw [skipExponent]
  extract_lets digits
  have hdigits : ∀ text, Leads (digits ()) text fun _ rest => Past IsDigits text rest := by
    intro text
    refine .bind (leads_skipDigit text) fun _ rest h => ?_
    obtain ⟨x, hx, rfl⟩ := h
    refine .bind (leads_readDigits rest) fun _ _ h => .pure ?_
    exact h.cons fun _ hcs => hcs.1.isDigits_cons hx
  refine .peek ?_
  split
  · next hnext =>
    obtain ⟨text, rfl⟩ := List.head?_eq_some_iff.mp hnext
    exact .advance_bind ((hdigits text).mono fun _ _ h => h.cons fun _ => .plus)
  · next hnext =>
    obtain ⟨text, rfl⟩ := List.head?_eq_some_iff.mp hnext
    exact .advance_bind ((hdigits text).mono fun _ _ h => h.cons fun _ => .minus)
  · exact (hdigits text).mono fun _ _ h => h.mono fun _ => .bare

theorem leads_skipAfterDigits (text : List Char) :
    Leads skipAfterDigits text fun _ rest => Past ScaleText text rest := by
  refine .peek ?_
  split
  · next hnext =>
    obtain ⟨text, rfl⟩ := List.head?_eq_some_iff.mp hnext
    refine .advance_bind ((leads_skipExponent text).mono fun _ _ h => ?_)
    exact h.cons fun _ hcs => hcs.scale (.inl rfl)
  · next hnext =>
    obtain ⟨text, rfl⟩ := List.head?_eq_some_iff.mp hnext
    refine .advance_bind ((leads_skipExponent text).mono fun _ _ h => ?_)
    exact h.cons fun _ hcs => hcs.scale (.inr rfl)
  · exact .pure (.of_eq .none rfl)

/-- A number of any size is stepped over behind its sign. -/
theorem leads_skipNumber (text : List Char) :
    Leads skipNumber text fun _ rest => Past MagnitudeText text rest := by
  rw [skipNumber]
  extract_lets last tail
  have htail : ∀ text, Leads (tail ()) text fun _ rest => Past TailText text rest := by
    intro text
    refine .peek ?_
    split
    · next hnext =>
      obtain ⟨text, rfl⟩ := List.head?_eq_some_iff.mp hnext
      refine .advance_bind (.bind (leads_readDigits text) fun ds rest hdigits => ?_)
      split
      · exact .bind_stop (.failAtNext _ _)
      · next hds => exact (leads_skipAfterDigits rest).mono fun _ _ => hdigits.fraction hds
    · exact (leads_skipAfterDigits text).mono fun _ _ h => h.mono fun _ => .of_scale
  refine .peek (.bind (leads_skipDigit text) fun _ more h => ?_)
  obtain ⟨x, hx, rfl⟩ := h
  rw [List.head?_cons]
  split
  · next hzero =>
    cases hzero
    refine .peek ?_
    split
    · exact .bind_stop (.failAtNext _ _)
    · exact (htail more).mono fun _ _ h => h.cons fun _ hcs => hcs.magnitude .zero
  · next hzero =>
    refine .bind (leads_readDigits more) fun ds rest hdigits => ?_
    have hwhole : Past WholeText (x :: more) rest :=
      hdigits.cons fun _ hcs => .digits (fun h => hzero (congrArg some h)) (hcs.1.isDigits_cons hx)
    refine (htail rest).mono fun _ _ h => ?_
    exact hwhole.append h fun _ _ hwhole htail => htail.magnitude hwhole

end Reader

end Pipewright.Json
