import Pipewright.Proofs.Json.Values
import Pipewright.Proofs.Results

/-!
# What reading again can give

A value with doubles in it need not be read back: a double may be read as another one, or as none
that there is.  And a value that is nested too deep is not read at all.  But if a value is read from
what has been written for it, then nothing more than its text is read, and the value that comes out
has the same texts under the same keys, and is nested as deep.

* `Reader.Takes`: a reader, if it reads anything here, reads a text for a result with a property.
* `Reader.takes_readNumber`: the text of a number.
* `Value.Alike`: values that have the same texts under the same keys, and are nested as deep.
* `Reader.takes_readValue`: the text of a value.
* `Decoder.alike_of_parse_pretty`: the text of a list of values.
-/

namespace Pipewright.Json

open Pipewright.Numeral

namespace Reader

variable {α β σ : Type} {r : Reader α} {P Q : α → Prop} {text more : List Char}

/-- If the reader reads anything before the text and `more`, it reads the text, for a result with
the property. -/
def Takes (r : Reader α) (text : List Char) (P : α → Prop) (more : List Char) : Prop :=
  ∀ offset a c, r (.facing offset (text ++ more)) = .ok (a, c) →
    P a ∧ c = .facing (offset + byteCount text) more

namespace Takes

/-- What is read for a result is read for nothing else. -/
theorem of_reads {a : α} (h : Reads r text a more) (ha : P a) : Takes r text P more := by
  intro offset b c hb
  rw [h offset] at hb
  cases hb
  exact ⟨ha, rfl⟩

/-- A reader that stops takes whatever one likes. -/
theorem of_never (h : Gives r fun _ => False) : Takes r text P more :=
  fun _ a c ha => (h _ a c ha).elim

protected theorem pure {a : α} (ha : P a) : Takes (Pure.pure a) [] P more :=
  of_reads (.pure a more) ha

protected theorem bind {f : α → Reader β} {R : β → Prop} {s t : List Char}
    (hr : Takes r s Q (t ++ more)) (hf : ∀ a, Q a → Takes (f a) t R more) :
    Takes (r >>= f) (s ++ t) R more := by
  intro offset b c hb
  rw [List.append_assoc] at hb
  obtain ⟨a, d, ha, hb⟩ := exists_of_bind_ok hb
  obtain ⟨hQ, rfl⟩ := hr offset a d ha
  rw [facing_append]
  exact hf a hQ _ b c hb

theorem bind_nil {f : α → Reader β} {R : β → Prop} (hr : Takes r text Q more)
    (hf : ∀ a, Q a → Takes (f a) [] R more) : Takes (r >>= f) text R more := by
  have hboth : Takes (r >>= f) (text ++ []) R more := Takes.bind hr hf
  rwa [List.append_nil] at hboth

/-- What the first reader reads for a result is known to the second one. -/
theorem bind_reads {f : α → Reader β} {R : β → Prop} {s t : List Char} {a : α}
    (hr : Reads r s a (t ++ more)) (hf : Takes (f a) t R more) : Takes (r >>= f) (s ++ t) R more :=
  Takes.bind (of_reads (P := (· = a)) hr rfl) fun _ hb => hb ▸ hf

theorem bind_reads_nil {f : α → Reader β} {R : β → Prop} {a : α} (hr : Reads r text a more)
    (hf : Takes (f a) [] R more) : Takes (r >>= f) text R more :=
  bind_nil (of_reads (P := (· = a)) hr rfl) fun _ hb => hb ▸ hf

theorem advance_bind {f : Unit → Reader α} {x : Char} (h : Takes (f ()) text P more) :
    Takes (Reader.advance >>= f) (x :: text) P more :=
  bind_reads (Reads.advance x _) h

theorem peek {f : Option Char → Reader α} (h : Takes (f (text ++ more).head?) text P more) :
    Takes (peek? >>= f) text P more :=
  fun offset => h offset

theorem afterBlanks {f : Option Char → Reader α} {cs : List Char} (hcs : Blanks cs)
    (hnext : ∀ x ∈ (text ++ more).head?, x ∉ [' ', '\t', '\n', '\r'])
    (h : Takes (f (text ++ more).head?) text P more) :
    Takes (peekAfterBlanks? >>= f) (cs ++ text) P more := by
  have hpeek : Reads peekAfterBlanks? cs (text ++ more).head? (text ++ more) :=
    Reads.afterBlanks_nil (f := Pure.pure) hcs hnext (.pure _ _)
  exact bind_reads hpeek h

theorem settling {settle : Cursor → Cursor} (h : Takes r text P more) :
    Takes (Reader.settling settle r) text P more := by
  intro offset a c ha
  rw [Reader.settling] at ha
  split at ha
  · cases ha
  · exact h offset a c ha

/-- A round that goes on, and the rounds behind it. -/
theorem go_next {round : σ → Reader (σ ⊕ α)} {s : σ} {first : List Char} {I : σ → Prop}
    (h : Takes (round s) first (fun answer => ∃ t, answer = .inl t ∧ I t) (text ++ more))
    (hrest : ∀ t, I t → ∀ n, Takes (iterate.go round n t) text P more) (n : Nat) :
    Takes (iterate.go round n s) (first ++ text) P more := by
  cases n with
  | zero => exact of_never (.failAtNext _ _)
  | succ n =>
    refine Takes.bind h ?_
    rintro _ ⟨t, rfl, ht⟩
    exact hrest t ht n

/-- A round that answers. -/
theorem go_last {round : σ → Reader (σ ⊕ α)} {s : σ}
    (h : Takes (round s) text (fun answer => ∃ a, answer = .inr a ∧ P a) more) (n : Nat) :
    Takes (iterate.go round n s) text P more := by
  cases n with
  | zero => exact of_never (.failAtNext _ _)
  | succ n =>
    refine bind_nil h ?_
    rintro _ ⟨a, rfl, ha⟩
    exact .pure ha

theorem iterate {round : σ → Reader (σ ⊕ α)} {s : σ}
    (h : ∀ n, Takes (iterate.go round n s) text P more) : Takes (Reader.iterate round s) text P more :=
  fun offset => h _ offset

/-- What a whole text is read for has the property. -/
theorem of_run {s : String} {a : α} (h : Takes r s.toList P []) (hrun : r.run s = .ok a) : P a := by
  rw [run, Cursor.start_eq_facing, ← List.append_nil s.toList] at hrun
  split at hrun
  · next b c hb =>
    cases hrun
    exact (h 0 _ c hb).1
  · cases hrun
  · cases hrun

end Takes

/-! ## Numbers -/

/-- Digits are read as far as they go. -/
theorem takes_readDigits {cs : List Char} (hcs : ∀ c ∈ cs, c.isDigit = true)
    (h : ∀ x ∈ more.head?, x.isDigit = false) :
    Takes readDigits cs (fun ds => ds = cs.map fun c => c.toNat - 0x30) more :=
  .of_reads (reads_readDigits hcs h) rfl

theorem digit?_of_isDigit {x : Char} (hx : x.isDigit = true) : digit? x = some (x.toNat - 0x30) :=
  if_pos hx

theorem digit?_of_not_isDigit {x : Char} (hx : x.isDigit = false) : digit? x = none :=
  if_neg (by rw [hx]; exact Bool.false_ne_true)

theorem takes_scaled (negative : Bool) (significand : Nat) (exponent : Int) :
    Takes (scaled negative significand exponent) [] (fun _ => True) more := by
  rw [scaled]
  split
  · exact .pure trivial
  · exact .of_never (.failHere _ _)

/-- The digits of an exponent behind its sign. -/
theorem takes_readExponent (negative : Bool) (x : Digits) {sign : Char} {ds : List Char}
    (hsign : sign = '+' ∨ sign = '-') (hds : IsDigits ds) (hmore : Ends more) :
    Takes (readExponent negative x) (sign :: ds) (fun _ => True) more := by
  have hnone : more.head?.bind digit? = none := by
    cases more with
    | nil => rfl
    | cons y rest => exact digit?_of_not_isDigit (hmore y rfl).1
  obtain ⟨hne, hall⟩ := hds
  obtain ⟨d, ds, rfl⟩ := List.exists_cons_of_ne_nil hne
  obtain ⟨hd, hdigits⟩ := List.forall_mem_cons.mp hall
  clear hne hall
  refine .peek ?_
  extract_lets rest
  have hrest : ∀ down, Takes (rest down) (d :: ds) (fun _ => True) more := by
    intro down
    refine .peek ?_
    simp only [List.cons_append, List.head?_cons, digit?_of_isDigit hd]
    refine .advance_bind (.iterate ?_)
    generalize d.toNat - 0x30 = n
    -- one digit a round, until there is none or the exponent is too great
    induction ds generalizing n with
    | nil =>
      refine .go_last (.peek ?_)
      rw [List.nil_append, hnone]
      exact .bind_nil (takes_scaled _ _ _) fun a _ => .pure ⟨a, rfl, trivial⟩
    | cons e ds ih =>
      obtain ⟨he, hdigits⟩ := List.forall_mem_cons.mp hdigits
      by_cases hfits : n * 10 + (e.toNat - 0x30) ≤ maxWrittenExponent
      · rw [← List.singleton_append]
        refine .go_next (I := fun _ => True) (.peek ?_) fun m _ => ih hdigits m
        simp only [List.cons_append, List.nil_append, List.head?_cons, Option.bind_some,
          digit?_of_isDigit he, if_pos hfits]
        exact .advance_bind (.pure ⟨_, rfl, trivial⟩)
      · refine .go_last (.peek ?_)
        simp only [List.cons_append, List.head?_cons, Option.bind_some, digit?_of_isDigit he,
          if_neg hfits]
        refine .advance_bind ?_
        split
        · exact .of_never (.failHere _ _)
        · exact .bind_nil (takes_readDigits hdigits fun y hy => (hmore y hy).1) fun _ _ =>
            .pure ⟨_, rfl, trivial⟩
  rcases hsign with rfl | rfl
  · exact .advance_bind (hrest false)
  · exact .advance_bind (hrest true)

theorem takes_wholeNumber (negative : Bool) (x : Digits) :
    Takes (wholeNumber negative x) [] (fun _ => True) more := by
  rw [wholeNumber]
  split
  · exact takes_scaled _ _ _
  · split
    · exact .pure trivial
    · split
      · exact .pure trivial
      · exact takes_scaled _ _ _

/-- What follows the digits of a fraction. -/
theorem takes_readAfterFraction (negative : Bool) (x : Digits) {exponent : List Char}
    (h : ExponentText exponent) (hmore : Ends more) :
    Takes (readAfterFraction negative x) exponent (fun _ => True) more := by
  refine .peek ?_
  cases h with
  | none =>
    rw [List.nil_append]
    split
    · next hnext => exact absurd (hmore _ hnext).2 (by decide)
    · next hnext => exact absurd (hmore _ hnext).2 (by decide)
    · exact takes_scaled _ _ _
  | some hsign hds => exact .advance_bind (takes_readExponent negative x hsign hds hmore)

/-- A fraction and what follows it, behind the point. -/
theorem takes_readFraction (negative : Bool) (x : Digits) {ds exponent : List Char}
    (hds : IsDigits ds) (h : ExponentText exponent) (hmore : Ends more) :
    Takes (readFraction negative x) (ds ++ exponent) (fun _ => True) more := by
  have hnext : ∀ y ∈ (exponent ++ more).head?, y.isDigit = false := by
    cases h with
    | none => exact fun y hy => (hmore y hy).1
    | some => exact fun y hy => Option.some.inj hy ▸ rfl
  refine .bind (takes_readDigits hds.isDigit hnext) ?_
  rintro _ rfl
  rw [if_neg (by simpa using hds.ne_nil)]
  exact takes_readAfterFraction negative _ h hmore

/-- What follows the digits before the point. -/
theorem takes_readAfterWhole (negative : Bool) (x : Digits) {fraction exponent : List Char}
    (hfraction : FractionText fraction) (hexponent : ExponentText exponent) (hmore : Ends more) :
    Takes (readAfterWhole negative x) (fraction ++ exponent) (fun _ => True) more := by
  refine .peek ?_
  cases hfraction with
  | some hds => exact .advance_bind (takes_readFraction negative x hds hexponent hmore)
  | none =>
    cases hexponent with
    | some hsign hds => exact .advance_bind (takes_readExponent negative x hsign hds hmore)
    | none =>
      rw [List.nil_append, List.nil_append]
      split
      · next hnext => exact absurd (hmore _ hnext).2 (by decide)
      · next hnext => exact absurd (hmore _ hnext).2 (by decide)
      · next hnext => exact absurd (hmore _ hnext).2 (by decide)
      · exact takes_wholeNumber negative x

/-- The text of a number is read up to its end. -/
theorem takes_readNumber (negative : Bool) {cs : List Char} (h : DecimalText cs)
    (hmore : Ends more) : Takes (readNumber negative) cs (fun _ => True) more := by
  obtain @⟨whole, fraction, exponent, hwhole, hfraction, hexponent⟩ := h
  have hafter : ∀ y ∈ (fraction ++ exponent ++ more).head?, y.isDigit = false := by
    cases hfraction with
    | some => exact fun y hy => Option.some.inj hy ▸ rfl
    | none =>
      cases hexponent with
      | some => exact fun y hy => Option.some.inj hy ▸ rfl
      | none => exact fun y hy => (hmore y hy).1
  have hdigits : Takes (readDigits >>= fun ds => readAfterWhole negative (Digits.ofWhole ds))
      (whole ++ (fraction ++ exponent)) (fun _ => True) more :=
    .bind (takes_readDigits hwhole.isDigit hafter) fun _ _ =>
      takes_readAfterWhole negative _ hfraction hexponent hmore
  obtain ⟨hne, hall⟩ := hwhole
  obtain ⟨x, ds, rfl⟩ := List.exists_cons_of_ne_nil hne
  obtain ⟨hx, hds⟩ := List.forall_mem_cons.mp hall
  refine .peek ?_
  rw [List.cons_append, List.cons_append, List.head?_cons]
  split
  · next hnone => cases hnone
  · -- a zero before other digits is refused
    refine .advance_bind (.peek ?_)
    cases ds with
    | nil =>
      split
      · exact .of_never (.failAtNext _ _)
      · show Takes _ (fraction ++ exponent) _ more
        exact takes_readAfterWhole negative _ hfraction hexponent hmore
    | cons y ds =>
      have hy : ((y :: ds ++ (fraction ++ exponent) ++ more).head?.bind digit?).isSome = true := by
        rw [List.cons_append, List.cons_append, List.head?_cons, Option.bind_some,
          digit?_of_isDigit (hds y List.mem_cons_self)]
        rfl
      rw [if_pos hy]
      exact .of_never (.failAtNext _ _)
  · next y _ hy =>
    obtain rfl := Option.some.inj hy
    rw [digit?_of_isDigit hx]
    exact hdigits

/-! ## Arrays and objects -/

variable {layout : Layout} {level : Nat}

/-- An array is read between its brackets. -/
theorem takes_inSquare {body : Nat → Reader α} {depth : Nat}
    (h : Takes (body depth) text P (']' :: more)) :
    Takes (inSquare (depth + 1) body) ('[' :: (text ++ [']'])) P more :=
  .advance_bind (.settling (.bind h fun _ ha =>
    .bind_reads_nil (reads_closeSquare more) (.pure ha)))

/-- An object is read between its brackets. -/
theorem takes_inCurly {body : Nat → Reader α} {depth : Nat}
    (h : Takes (body depth) text P ('\x7d' :: more)) :
    Takes (inCurly (depth + 1) body) ('\x7b' :: (text ++ ['\x7d'])) P more :=
  .advance_bind (.settling (.bind h fun _ ha =>
    .bind_reads_nil (reads_closeCurly more) (.pure ha)))

/-- Items that are read have what each of them has. -/
theorem takes_readItems {item : Reader α} {R : Value → α → Prop} {vs : List Value}
    {line outer : List Char} (hline : Blanks line) (houter : Blanks outer)
    (h : ∀ v ∈ vs, ∀ rest, Ends rest → Takes item (layout.text level v) (R v) rest) :
    Takes (readItems item) (separated line true (vs.map (layout.text level)) ++ outer)
      (fun as => List.Forall₂ R vs as) (']' :: more) := by
  refine .iterate ?_
  suffices hall : ∀ (done : List Value) (soFar : List α),
      List.Forall₂ R done soFar.reverse → ∀ n, Takes (iterate.go _ n soFar)
        (separated line soFar.isEmpty (vs.map (layout.text level)) ++ outer)
        (fun as => List.Forall₂ R (done ++ vs) as) (']' :: more) from hall [] [] .nil
  intro done soFar hdone
  induction vs generalizing done soFar with
  | nil =>
    refine .go_last (.bind_reads_nil (reads_anotherItem_false houter _ _) (.pure ⟨_, rfl, ?_⟩))
    rwa [List.append_nil]
  | cons v vs ih =>
    obtain ⟨hv, hvs⟩ := List.forall_mem_cons.mp h
    have hends : Ends (separated line false (vs.map (layout.text level)) ++ (outer ++ ']' :: more)) :=
      ends_separated line _ houter (by decide) more
    rw [List.map_cons, separated, List.append_assoc, List.append_assoc, ← List.append_assoc]
    refine .go_next (I := fun soFar' => ∃ a, R v a ∧ soFar' = a :: soFar) ?_ ?_
    · rw [List.append_assoc]
      refine .bind_reads (reads_anotherItem hline layout level v _ _) ?_
      exact .bind_nil (hv _ hends) fun a ha => .pure ⟨_, rfl, a, ha, rfl⟩
    · rintro _ ⟨a, ha, rfl⟩
      have hdone' : List.Forall₂ R (done ++ [v]) (a :: soFar).reverse := by
        rw [List.reverse_cons]
        exact List.rel_append hdone (.cons ha .nil)
      have hnext := ih hvs (done ++ [v]) (a :: soFar) hdone'
      rwa [List.append_assoc] at hnext

/-- What holds after some members holds after all of them, when each one keeps it. -/
theorem takes_readMembers {member : String → σ → Reader σ} {I : List (String × Value) → σ → Prop}
    {ms : List (String × Value)} {s : σ} {line outer : List Char} (hline : Blanks line)
    (houter : Blanks outer)
    (h : ∀ done m after, ms = done ++ m :: after → ∀ s, I done s → ∀ rest, Ends rest →
      Takes (member m.1 s) (':' :: (layout.space ++ layout.text level m.2)) (I (done ++ [m])) rest)
    (hs : I [] s) :
    Takes (readMembers member s)
      (separated line true (ms.map (memberText layout.space (layout.text level))) ++ outer) (I ms)
      ('\x7d' :: more) := by
  refine .iterate ?_
  suffices hall : ∀ done todo, ms = done ++ todo → ∀ s first, I done s → ∀ n,
      Takes (iterate.go _ n (s, first))
        (separated line first (todo.map (memberText layout.space (layout.text level))) ++ outer)
        (I ms) ('\x7d' :: more) from hall [] ms rfl s true hs
  clear hs s
  intro done todo hsplit s first hs
  induction todo generalizing done s first with
  | nil =>
    rw [List.append_nil] at hsplit
    refine .go_last (.bind_reads_nil (reads_anotherMember_false houter _ _) (.pure ⟨_, rfl, ?_⟩))
    exact hsplit ▸ hs
  | cons m todo ih =>
    have hclose : '\x7d' ∈ [']', '\x7d'] := by decide
    have hends : Ends (separated line false
        (todo.map (memberText layout.space (layout.text level))) ++ (outer ++ '\x7d' :: more)) :=
      ends_separated line _ houter hclose more
    rw [List.map_cons, separated, List.append_assoc, List.append_assoc, ← List.append_assoc,
      memberText, toList_stringText, List.cons_append]
    refine .go_next (I := fun state => I (done ++ [m]) state.1 ∧ state.2 = false) ?_ ?_
    · refine .bind_reads (reads_anotherMember hline first _)
        (.advance_bind (.bind_reads (reads_readString m.1 _) ?_))
      rw [List.append_assoc]
      exact .bind_nil (h done m todo hsplit s hs _ hends) fun t ht => .pure ⟨_, rfl, ht, rfl⟩
    · rintro ⟨t, _⟩ ⟨ht, rfl⟩
      exact ih (done ++ [m]) (by rw [hsplit, List.append_assoc]; rfl) t false ht

end Reader

open Reader

/-! ## Values -/

namespace Value

/-- The other value is the same text, or none either, and so it is under every key; and it is
nested no less deep. -/
structure Alike (v w : Value) : Prop where
  text : w.text? = v.text?
  member : ∀ key, (w.member? key).bind text? = (v.member? key).bind text?
  within : ∀ depth, w.Within depth → v.Within depth

/-- Members with the same keys, each with a value like the other. -/
abbrev AlikeMember (m n : String × Value) : Prop := n.1 = m.1 ∧ m.2.Alike n.2

/-- Any two numbers are alike. -/
theorem alike_number (n n' : Number) : (Value.number n).Alike (.number n') :=
  ⟨rfl, fun _ => rfl, fun depth _ => .number depth n⟩

/-- Whole values that are not nested are like themselves. -/
theorem alike_self (v : Value) : v.Alike v :=
  ⟨rfl, fun _ => rfl, fun _ h => h⟩

theorem alike_array {vs ws : List Value} (h : List.Forall₂ Alike vs ws) :
    (Value.array vs).Alike (.array ws) where
  text := rfl
  member _ := rfl
  within depth hws := by
    cases hws with | @array depth _ hws =>
    refine .array fun v hv => ?_
    obtain ⟨w, hw, halike⟩ := exists_mem_of_forall₂ h.flip hv
    exact halike.within depth (hws w hw)

theorem alike_object {ms ns : List (String × Value)} (h : List.Forall₂ AlikeMember ms ns) :
    (Value.object ms).Alike (.object ns) where
  text := rfl
  member key := by
    show (ns.lookup key).bind text? = (ms.lookup key).bind text?
    induction h with
    | nil => rfl
    | @cons m n ms ns hm _ ih =>
      rw [lookup_cons_eq, lookup_cons_eq, hm.1]
      split
      · exact hm.2.text
      · exact ih
  within depth hns := by
    cases hns with | @object depth _ hns =>
    refine .object fun m hm => ?_
    obtain ⟨n, hn, halike⟩ := exists_mem_of_forall₂ h.flip hm
    exact halike.2.within depth (hns n hn)

end Value

namespace Reader

/-- A value that starts with a digit is a number. -/
theorem takes_readValue_of_digit {x : Char} (hx : x.isDigit = true) {text more blanks : List Char}
    {P : Value → Prop} (h : Takes (readNumber false) (x :: text) (fun _ => True) more)
    (hblanks : Blanks blanks) (hP : ∀ n, P (.number n)) (depth : Nat) :
    Takes (readValue depth) (blanks ++ x :: text) P more := by
  intro offset a c ha
  have hread : Takes (readNumber false >>= fun n => return Value.number n) (x :: text) P more :=
    .bind_nil h fun n _ => .pure (hP n)
  rw [List.append_assoc, List.cons_append, readValue_digit hx hblanks, ← List.cons_append] at ha
  rw [facing_append]
  exact hread _ a c ha

section Kinds

variable {layout : Layout} {level depth : Nat} {blanks more : List Char}

theorem takes_readValue_number (n : Number) (hblanks : Blanks blanks) (hmore : Ends more) :
    Takes (readValue depth) (blanks ++ layout.text level (.number n)) (Value.number n).Alike
      more := by
  obtain ⟨negative, cs, htext, hdecimal⟩ := decimalText_numberText n
  rw [layout.text_number, htext]
  cases negative with
  | false =>
    have hnumber := takes_readNumber false hdecimal hmore
    obtain ⟨x, rest, rfl, hx⟩ := hdecimal.exists_cons
    exact takes_readValue_of_digit hx hnumber hblanks (Value.alike_number n) depth
  | true =>
    unfold readValue
    refine .afterBlanks hblanks (not_blank_cons (by decide)) ?_
    exact .advance_bind (.bind_nil (takes_readNumber true hdecimal hmore) fun n' _ =>
      .pure (Value.alike_number n n'))

/-- An array is read for one that is like it, when its items are one level deeper. -/
theorem takes_readValue_array {vs : List Value} (hblanks : Blanks blanks)
    (h : ∀ inner < depth, ∀ v ∈ vs, ∀ rest, Ends rest →
      Takes (readValue inner) (layout.text (level + 1) v) v.Alike rest) :
    Takes (readValue depth) (blanks ++ layout.text level (.array vs)) (Value.array vs).Alike
      more := by
  rw [layout.text_array, bracketed]
  unfold readValue
  refine .afterBlanks hblanks (not_blank_cons (by decide)) ?_
  rcases depth with _ | depth
  · exact .of_never (.failAtNext _ _)
  refine takes_inSquare (.bind_nil (Q := List.Forall₂ Value.Alike vs) ?_ fun ws hws =>
    .pure (Value.alike_array hws))
  exact takes_readItems (layout.blanks_line (level + 1)) (layout.blanks_closing level _)
    (h depth depth.lt_succ_self)

/-- A member comes behind those that have been read, whose keys are less than its own. -/
theorem rel_putKey {ms done after soFar : List (String × Value)} {m : String × Value} {w : Value}
    (hkeys : KeysInOrder ms) (hsplit : ms = done ++ m :: after)
    (hsoFar : List.Forall₂ Value.AlikeMember done soFar) (hw : m.2.Alike w) :
    List.Forall₂ Value.AlikeMember (done ++ [m]) (putKey soFar m.1 w) := by
  have hlast : ∀ n ∈ soFar, n.1 < m.1 := by
    intro n hn
    obtain ⟨k, hk, hkn⟩ := exists_mem_of_forall₂ hsoFar hn
    rw [hsplit] at hkeys
    rw [hkn.1]
    exact (List.pairwise_append.mp hkeys).2.2 k hk m List.mem_cons_self
  rw [putKey_eq_append hlast]
  exact List.rel_append hsoFar (.cons ⟨rfl, hw⟩ .nil)

/-- An object is read for one that is like it, when its members are one level deeper. -/
theorem takes_readValue_object {ms : List (String × Value)} (hkeys : KeysInOrder ms)
    (hblanks : Blanks blanks)
    (h : ∀ inner < depth, ∀ m ∈ ms, ∀ blanks, Blanks blanks → ∀ rest, Ends rest →
      Takes (readValue inner) (blanks ++ layout.text (level + 1) m.2) m.2.Alike rest) :
    Takes (readValue depth) (blanks ++ layout.text level (.object ms)) (Value.object ms).Alike
      more := by
  rw [layout.text_object, bracketed]
  unfold readValue
  refine .afterBlanks hblanks (not_blank_cons (by decide)) ?_
  rcases depth with _ | depth
  · exact .of_never (.failAtNext _ _)
  refine takes_inCurly (.bind_nil (Q := List.Forall₂ Value.AlikeMember ms) ?_ fun ns hns =>
    .pure (Value.alike_object hns))
  refine takes_readMembers (layout.blanks_line (level + 1)) (layout.blanks_closing level _)
    (fun done m after hsplit soFar hsoFar rest hrest => ?_) .nil
  have hm : m ∈ ms := hsplit ▸ List.mem_append_right _ List.mem_cons_self
  have hvalue := h depth depth.lt_succ_self m hm _ layout.blanks_space rest hrest
  exact .bind_reads (reads_readColon _) (.bind_nil hvalue fun w hw =>
    .pure (rel_putKey hkeys hsplit hsoFar hw))

end Kinds

/-- The text of a value is read for a value that is like it. -/
theorem takes_readValue (layout : Layout) (level depth : Nat) {v : Value} (hformed : v.Formed)
    {blanks more : List Char} (hblanks : Blanks blanks) (hmore : Ends more) :
    Takes (readValue depth) (blanks ++ layout.text level v) v.Alike more := by
  induction depth using Nat.strongRecOn generalizing v level blanks more with
  | ind depth ih =>
    cases hformed with
    | null => exact .of_reads (reads_readValue_null hblanks) (Value.alike_self _)
    | bool b => exact .of_reads (reads_readValue_bool b hblanks) (Value.alike_self _)
    | string s => exact .of_reads (reads_readValue_string s hblanks) (Value.alike_self _)
    | number _ => exact takes_readValue_number _ hblanks hmore
    | array hvs =>
      exact takes_readValue_array hblanks fun inner hinner v hv _ hrest =>
        ih inner hinner (level + 1) (hvs v hv) blanks_nil hrest
    | object hkeys hms =>
      exact takes_readValue_object hkeys hblanks fun inner hinner m hm _ hblanks' _ hrest =>
        ih inner hinner (level + 1) (hms m hm) hblanks' hrest

end Reader

namespace Decoder

/-- When the text of a list is read, then for a list of values that are like its own. -/
theorem alike_of_parse_pretty {vs ws : List Value} (hvs : ∀ v ∈ vs, v.Formed)
    (h : value.list.parse (Value.array vs).pretty = .ok ws) : List.Forall₂ Value.Alike vs ws := by
  have hlist : Takes (value.list.read maxDepth) (Layout.pretty.text 0 (.array vs))
      (List.Forall₂ Value.Alike vs) [] := by
    rw [Layout.pretty.text_array, bracketed]
    refine .afterBlanks blanks_nil (not_blank_cons (by decide)) ?_
    exact takes_inSquare (takes_readItems (Layout.pretty.blanks_line 1)
      (Layout.pretty.blanks_closing 0 _) fun v hv rest hrest =>
        takes_readValue Layout.pretty 1 _ (hvs v hv) blanks_nil hrest)
  refine Takes.of_run (P := List.Forall₂ Value.Alike vs) ?_ h
  refine .bind_nil hlist fun ws hws => ?_
  exact .bind_reads_nil (.peekAfterBlanks (fun _ hy => by cases hy) (.pure () [])) (.pure hws)

end Decoder

end Pipewright.Json
