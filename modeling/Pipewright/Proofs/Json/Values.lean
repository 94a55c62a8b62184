import Pipewright.Proofs.Json.Gives
import Pipewright.Proofs.Json.Shapes
import Pipewright.Proofs.Keyed

/-!
# Values of any shape are read back

A value that has been read has whole numbers of at most 64 bits and objects with their keys in
order, and is nested no deeper than there could be open brackets.  Such a value is read back from
what any layout writes for it, so long as none of its numbers is a double, which may be read as
another one.

* `Value.Formed`, `Value.Within`: the form of a value, and how deep it is nested.
* `Value.Whole`: values without doubles.
* `Reader.gives_readValue`: the values that are read.
* `Reader.reads_readValue_array`, `Reader.reads_readValue_object`: what is read for one kind of value.
* `Decoder.accepts_value`: the values that are read back.
-/

namespace Pipewright.Json

open Reader

namespace Value

/-- The numbers of the value can be told in 64 bits, and its objects have their keys in order. -/
inductive Formed : Value → Prop where
  | null : Formed .null
  | bool (b : Bool) : Formed (.bool b)
  | number {n : Number} (h : n.Fits) : Formed (.number n)
  | string (s : String) : Formed (.string s)
  | array {vs : List Value} (h : ∀ v ∈ vs, Formed v) : Formed (.array vs)
  | object {ms : List (String × Value)} (hkeys : KeysInOrder ms) (h : ∀ m ∈ ms, Formed m.2) :
      Formed (.object ms)

/-- So many brackets have to be open at once to read the value. -/
inductive Within : Nat → Value → Prop where
  | null (depth : Nat) : Within depth .null
  | bool (depth : Nat) (b : Bool) : Within depth (.bool b)
  | number (depth : Nat) (n : Number) : Within depth (.number n)
  | string (depth : Nat) (s : String) : Within depth (.string s)
  | array {depth : Nat} {vs : List Value} (h : ∀ v ∈ vs, Within depth v) :
      Within (depth + 1) (.array vs)
  | object {depth : Nat} {ms : List (String × Value)} (h : ∀ m ∈ ms, Within depth m.2) :
      Within (depth + 1) (.object ms)

/-- No number of the value is a double. -/
inductive Whole : Value → Prop where
  | null : Whole .null
  | bool (b : Bool) : Whole (.bool b)
  | natural (n : Nat) : Whole (.number (.natural n))
  | negative (n : Nat) : Whole (.number (.negative n))
  | string (s : String) : Whole (.string s)
  | array {vs : List Value} (h : ∀ v ∈ vs, Whole v) : Whole (.array vs)
  | object {ms : List (String × Value)} (h : ∀ m ∈ ms, Whole m.2) : Whole (.object ms)

end Value

/-! ## Values that are read -/

namespace Reader

/-- What is read is in form, and nested no deeper than brackets may be open. -/
theorem gives_readValue (depth : Nat) :
    Gives (readValue depth) fun v => v.Formed ∧ v.Within depth := by
  induction depth using Nat.strongRecOn with
  | ind depth ih =>
    unfold readValue
    refine .bind fun next => ?_
    split
    · exact .failAtNext _ _
    · exact .bind fun _ => .bind fun _ => .pure ⟨.null, .null _⟩
    · exact .bind fun _ => .bind fun _ => .pure ⟨.bool true, .bool _ true⟩
    · exact .bind fun _ => .bind fun _ => .pure ⟨.bool false, .bool _ false⟩
    · exact .bind fun _ => .bind_of (gives_readNumber true) fun n hn =>
        .pure ⟨.number hn, .number _ n⟩
    · exact .bind fun _ => .bind fun s => .pure ⟨.string s, .string _ s⟩
    · rcases depth with _ | depth
      · exact .failAtNext _ _
      · refine gives_inSquare (fun _ => .bind_of (gives_readItems (ih depth depth.lt_succ_self)) ?_) _
        exact fun vs hvs =>
          .pure ⟨.array fun v hv => (hvs v hv).1, .array fun v hv => (hvs v hv).2⟩
    · rcases depth with _ | depth
      · exact .failAtNext _ _
      · have hmember : ∀ (key : String) (soFar : List (String × Value)),
            (KeysInOrder soFar ∧ ∀ m ∈ soFar, m.2.Formed ∧ m.2.Within depth) →
            Gives (do readColon; return putKey soFar key (← readValue depth)) fun ms =>
              KeysInOrder ms ∧ ∀ m ∈ ms, m.2.Formed ∧ m.2.Within depth := by
          rintro key soFar ⟨hkeys, hall⟩
          refine .bind fun _ => .bind_of (ih depth depth.lt_succ_self) fun v hv => .pure ?_
          refine ⟨keysInOrder_putKey hkeys key v, fun m hm => ?_⟩
          obtain rfl | hm := mem_putKey hm
          · exact hv
          · exact hall m hm
        refine gives_inCurly (fun _ => .bind_of
          (gives_readMembers hmember ⟨.nil, List.forall_mem_nil _⟩) ?_) _
        exact fun ms hms => .pure
          ⟨.object hms.1 fun m hm => (hms.2 m hm).1, .object fun m hm => (hms.2 m hm).2⟩
    · split
      · exact .bind_of (gives_readNumber false) fun n hn => .pure ⟨.number hn, .number _ n⟩
      · exact .failAtNext _ _

/-! ## Values that are read back -/

/-- At a digit, perhaps behind blanks, a number is read. -/
theorem readValue_digit {x : Char} (hx : x.isDigit = true) {blanks : List Char}
    (hblanks : Blanks blanks) (depth offset : Nat) (rest : List Char) :
    readValue depth (.facing offset (blanks ++ x :: rest)) =
      (readNumber false >>= fun n => return .number n)
        (.facing (offset + byteCount blanks) (x :: rest)) := by
  have hne : ∀ y : Char, y.isDigit = false → x ≠ y := by
    rintro y hy rfl
    rw [hy] at hx
    cases hx
  have hnone : ∀ y ∈ [' ', '\t', '\n', '\r'], y.isDigit = false := by simp
  have hpeek : Reads peekAfterBlanks? blanks (some x) (x :: rest) :=
    Reads.afterBlanks_nil (f := Pure.pure) hblanks
      (fun y hy hblank => hne y (hnone y hblank) (Option.some.inj hy)) (.pure _ _)
  unfold readValue
  rw [bind_of_ok (hpeek offset)]
  refine congrFun ?_ _
  split <;> rename_i hnext <;> try exact absurd (Option.some.inj hnext) (hne _ rfl)
  · cases hnext
  · obtain rfl := Option.some.inj hnext
    rw [digit?, if_pos hx]
    rfl

/-- A value that starts with a digit is a number. -/
theorem reads_readValue_of_digit {x : Char} (hx : x.isDigit = true) {text more : List Char}
    {n : Number} (h : Reads (readNumber false) (x :: text) n more) {blanks : List Char}
    (hblanks : Blanks blanks) (depth : Nat) :
    Reads (readValue depth) (blanks ++ x :: text) (.number n) more := by
  intro offset
  have hread : Reads (readNumber false >>= fun n => return Value.number n) (x :: text) (.number n)
      more := h.bind_nil (.pure _ more)
  rw [List.append_assoc, List.cons_append, readValue_digit hx hblanks, ← List.cons_append, hread,
    facing_append]

/-- Members in the order of their keys are gathered in that order. -/
theorem membersRead_putKey {layout : Layout} {level depth : Nat} {done ms : List (String × Value)}
    (hkeys : KeysInOrder (done ++ ms))
    (h : ∀ m ∈ ms, ∀ blanks, Blanks blanks → ∀ more, Ends more →
      Reads (readValue depth) (blanks ++ layout.text level m.2) m.2 more) :
    MembersRead layout level (fun key (soFar : List (String × Value)) => do
      readColon
      return putKey soFar key (← readValue depth)) done ms (done ++ ms) := by
  induction ms generalizing done with
  | nil =>
    rw [List.append_nil]
    exact .nil done
  | cons m ms ih =>
    obtain ⟨hm, hms⟩ := List.forall_mem_cons.mp h
    have hlast : putKey done m.1 m.2 = done ++ [m] :=
      putKey_eq_append (fun n hn => (List.pairwise_append.mp hkeys).2.2 n hn m List.mem_cons_self) _
    have hsplit : done ++ m :: ms = (done ++ [m]) ++ ms := by simp
    rw [hsplit] at hkeys ⊢
    refine .cons (fun rest hrest => ?_) (ih hkeys hms)
    rw [← hlast]
    exact .bind (reads_readColon _)
      ((hm layout.space layout.blanks_space rest hrest).bind_nil (.pure _ rest))

/-! ### What is written for one kind of value -/

section Kinds

variable {layout : Layout} {level depth : Nat} {blanks more : List Char}

theorem reads_readValue_null (hblanks : Blanks blanks) :
    Reads (readValue depth) (blanks ++ layout.text level .null) .null more := by
  unfold readValue
  rw [layout.text_null]
  refine .afterBlanks hblanks (not_blank_cons (by decide)) ?_
  exact .advance_bind ((reads_readWord _ more).bind_nil (.pure _ more))

theorem reads_readValue_bool (b : Bool) (hblanks : Blanks blanks) :
    Reads (readValue depth) (blanks ++ layout.text level (.bool b)) (.bool b) more := by
  unfold readValue
  cases b with
  | true =>
    rw [layout.text_true]
    refine .afterBlanks hblanks (not_blank_cons (by decide)) ?_
    exact .advance_bind ((reads_readWord _ more).bind_nil (.pure _ more))
  | false =>
    rw [layout.text_false]
    refine .afterBlanks hblanks (not_blank_cons (by decide)) ?_
    exact .advance_bind ((reads_readWord _ more).bind_nil (.pure _ more))

theorem reads_readValue_string (s : String) (hblanks : Blanks blanks) :
    Reads (readValue depth) (blanks ++ layout.text level (.string s)) (.string s) more := by
  unfold readValue
  rw [layout.text_string, toList_stringText]
  refine .afterBlanks hblanks (not_blank_cons (by decide)) ?_
  exact .advance_bind ((reads_readString s more).bind_nil (.pure _ more))

/-- A number that is no double ends where no digit follows. -/
theorem reads_readValue_number {n : Number} (hfits : n.Fits) (hwhole : (Value.number n).Whole)
    (hblanks : Blanks blanks) (hmore : Ends more) :
    Reads (readValue depth) (blanks ++ layout.text level (.number n)) (.number n) more := by
  rw [layout.text_number]
  cases hwhole with
  | natural n =>
    have hread := reads_readNumber hfits hmore
    obtain ⟨x, rest, hcons⟩ := List.exists_cons_of_ne_nil (IsDigits.toDigits n).ne_nil
    have hx : x.isDigit = true :=
      (IsDigits.toDigits n).isDigit x (hcons ▸ List.mem_cons_self)
    rw [numberText, Text.toList_decimal, hcons]
    rw [hcons] at hread
    exact reads_readValue_of_digit hx hread hblanks depth
  | negative n =>
    have htext : (numberText (.negative n)).toList = '-' :: Nat.toDigits 10 n := by
      rw [numberText, String.toList_append, Text.toList_decimal]
      rfl
    unfold readValue
    rw [htext]
    refine .afterBlanks hblanks (not_blank_cons (by decide)) ?_
    exact .advance_bind ((reads_readNegative hfits.1 hfits.2 hmore).bind_nil (.pure _ more))

/-- An array is read one level deeper than its items. -/
theorem reads_readValue_array {vs : List Value} (hblanks : Blanks blanks)
    (h : ∀ v ∈ vs, ∀ rest, Ends rest →
      Reads (readValue depth) (layout.text (level + 1) v) v rest) :
    Reads (readValue (depth + 1)) (blanks ++ layout.text level (.array vs)) (.array vs) more := by
  rw [readValue, layout.text_array, bracketed]
  refine .afterBlanks hblanks (not_blank_cons (by decide)) ?_
  exact reads_inSquare ((reads_readItems (layout.blanks_line _) (layout.blanks_closing level _)
    (List.forall₂_same.mpr h)).bind_nil (.pure _ _))

/-- An object is read one level deeper than its members. -/
theorem reads_readValue_object {ms : List (String × Value)} (hkeys : KeysInOrder ms)
    (hblanks : Blanks blanks)
    (h : ∀ m ∈ ms, ∀ blanks, Blanks blanks → ∀ rest, Ends rest →
      Reads (readValue depth) (blanks ++ layout.text (level + 1) m.2) m.2 rest) :
    Reads (readValue (depth + 1)) (blanks ++ layout.text level (.object ms)) (.object ms)
      more := by
  have hall : KeysInOrder ([] ++ ms) := hkeys
  rw [readValue, layout.text_object, bracketed]
  refine .afterBlanks hblanks (not_blank_cons (by decide)) ?_
  exact reads_inCurly (((membersRead_putKey hall h).reads (layout.blanks_line _)
    (layout.blanks_closing level _)).bind_nil (.pure _ _))

end Kinds

end Reader

namespace Decoder

/-- A value that is the value of a text is in form, and nested no deeper than a text may be. -/
theorem formed_of_parse {text : String} {v : Value} (h : value.parse text = .ok v) :
    v.Formed ∧ v.Within maxDepth := by
  have hgives : Reader.Gives (do let v ← value.read maxDepth; endOfText; return v)
      fun v => v.Formed ∧ v.Within maxDepth :=
    .bind_of (gives_readValue maxDepth) fun v hv => .bind fun _ => .pure hv
  exact hgives.of_run h

/-- A value without doubles is read back. -/
theorem accepts_value {v : Value} {need : Nat} (hformed : v.Formed) (hwhole : v.Whole)
    (hwithin : v.Within need) : value.Accepts need v v := by
  induction hformed generalizing need with
  | null => exact fun _ _ _ _ _ hblanks _ _ => reads_readValue_null hblanks
  | bool b => exact fun _ _ _ _ _ hblanks _ _ => reads_readValue_bool b hblanks
  | string s => exact fun _ _ _ _ _ hblanks _ _ => reads_readValue_string s hblanks
  | number hfits =>
    exact fun _ _ _ _ _ hblanks _ hmore => reads_readValue_number hfits hwhole hblanks hmore
  | array hvs ih =>
    cases hwhole with | array hwhole =>
    cases hwithin with | array hwithin =>
    intro layout level depth hdepth blanks hblanks more _
    obtain ⟨depth, rfl⟩ : ∃ k, depth = k + 1 := ⟨depth - 1, by omega⟩
    refine reads_readValue_array hblanks fun v hv rest hrest => ?_
    exact ih v hv (hwhole v hv) (hwithin v hv) layout (level + 1) depth
      (Nat.le_of_succ_le_succ hdepth) [] blanks_nil rest hrest
  | object hkeys hms ih =>
    cases hwhole with | object hwhole =>
    cases hwithin with | object hwithin =>
    intro layout level depth hdepth blanks hblanks more _
    obtain ⟨depth, rfl⟩ : ∃ k, depth = k + 1 := ⟨depth - 1, by omega⟩
    refine reads_readValue_object hkeys hblanks fun m hm => ?_
    exact ih m hm (hwhole m hm) (hwithin m hm) layout (level + 1) depth
      (Nat.le_of_succ_le_succ hdepth)

end Decoder

end Pipewright.Json
