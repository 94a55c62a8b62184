import Mathlib.Data.List.Forall2
import Pipewright.Json.Decoder
import Pipewright.Proofs.Json.Layouts
import Pipewright.Proofs.Json.Scalars

/-!
# Values are read back

Whatever the layout, the text of a value is read by a decoder for what the value stands for, when
the decoders of its parts read the parts.  Arrays and objects are read item by item and member by
member, and a record is read from an object that has its keys in order, each with a value that its
field reads.

* `Reader.reads_readItems`, `Reader.MembersRead.reads`: what stands between brackets.
* `Decoder.Accepts`: a decoder reads what is written for a value for a result.
* `Decoder.accepts_text`, `Decoder.accepts_count`: scalars.
* `Decoder.Accepts.optional`, `Decoder.Accepts.orBlank`, `Decoder.accepts_list`: derived shapes.
* `Record.FieldsRead`, `Decoder.accepts_record`: records.
* `Decoder.accepts_word`: words.
* `Decoder.parse_text`, `Decoder.parse_compact`, `Decoder.parse_pretty`: a whole text.
-/

namespace Pipewright.Json

open Reader

namespace Reader

variable {α σ : Type} {more : List Char} {x : Char} {layout : Layout} {level : Nat}

/-! ## What stands behind a value -/

/-- An item or a member is followed by a comma or, perhaps behind blanks, by the bracket that
closes. -/
theorem ends_separated (line : List Char) (ts : List (List Char)) {outer : List Char}
    (houter : Blanks outer) (hx : x ∈ [']', '\x7d']) (rest : List Char) :
    Ends (separated line false ts ++ (outer ++ x :: rest)) := by
  cases ts with
  | cons t ts => exact ends_cons (by decide) _
  | nil =>
    cases outer with
    | nil => exact ends_cons (List.mem_append_right [' ', '\t', '\n', '\r', ','] hx) _
    | cons y outer =>
      exact ends_cons (List.mem_append_left [',', ']', '\x7d'] (houter y List.mem_cons_self)) _

/-- The text of a value does not start with a blank. -/
theorem not_blank_text (layout : Layout) (level : Nat) (v : Value) (rest : List Char) :
    ∀ x ∈ (layout.text level v ++ rest).head?, x ∉ [' ', '\t', '\n', '\r'] := by
  obtain ⟨x, text, hx, hnotin, -⟩ := layout.text_eq_cons level v
  rw [hx]
  intro y hy hblank
  exact hnotin (List.mem_append_left [']'] (Option.some.inj hy ▸ hblank))

/-! ## Items -/

/-- Another item follows, which is not the first one if a comma stands before it. -/
theorem reads_anotherItem {line : List Char} (hline : Blanks line) (layout : Layout) (level : Nat)
    (v : Value) (first : Bool) (rest : List Char) :
    Reads (anotherItem first) (if first then line else ',' :: line) true
      (layout.text level v ++ rest) := by
  have hnext := not_blank_text layout level v rest
  obtain ⟨x, text, hx, hnotin, -⟩ := layout.text_eq_cons level v
  have hclose : x ≠ ']' := by
    rintro rfl
    exact hnotin (by decide)
  rw [hx] at hnext ⊢
  cases first with
  | true =>
    refine .afterBlanks_nil hline hnext ?_
    simp only [if_true, List.cons_append, List.head?_cons]
    exact .pure _ _
  | false =>
    refine .peekAfterBlanks (not_blank_cons (by decide)) ?_
    simp only [Bool.false_eq_true, if_false, List.cons_append, List.head?_cons]
    refine .advance_bind (.afterBlanks_nil hline hnext ?_)
    simp only [List.head?_cons]
    exact .pure _ _

/-- No other item follows before the bracket that closes. -/
theorem reads_anotherItem_false {outer : List Char} (houter : Blanks outer) (first : Bool)
    (more : List Char) : Reads (anotherItem first) outer false (']' :: more) :=
  .afterBlanks_nil houter (not_blank_cons (by decide)) (.pure false _)

/-- Items are read one after the other, up to the bracket that closes. -/
theorem reads_readItems {item : Reader α} {vs : List Value} {as : List α} {line outer : List Char}
    (hline : Blanks line) (houter : Blanks outer)
    (h : List.Forall₂
      (fun v a => ∀ rest, Ends rest → Reads item (layout.text level v) a rest) vs as) :
    Reads (readItems item) (separated line true (vs.map (layout.text level)) ++ outer) as
      (']' :: more) := by
  rw [readItems]
  refine Rounds.reads ?_
  suffices hall : ∀ soFar : List α, Rounds _ soFar
      (separated line soFar.isEmpty (vs.map (layout.text level)) ++ outer) (soFar.reverse ++ as)
      (']' :: more) from hall []
  intro soFar
  induction h generalizing soFar with
  | nil =>
    refine .last ((reads_anotherItem_false houter _ _).bind_nil ?_)
    rw [List.append_nil]
    exact .pure _ _
  | @cons v a vs as hread _ ih =>
    have hne : layout.text level v ≠ [] := by
      obtain ⟨x, text, hx, -⟩ := layout.text_eq_cons level v
      exact hx ▸ List.cons_ne_nil x text
    have hends : Ends (separated line false (vs.map (layout.text level)) ++ (outer ++ ']' :: more)) :=
      ends_separated line _ houter (by decide) more
    rw [List.map_cons, separated, List.append_assoc, List.append_assoc, ← List.append_assoc]
    refine .next ?_ (List.append_ne_nil_of_right_ne_nil _ hne) (by simpa using ih (a :: soFar))
    rw [List.append_assoc]
    exact .bind (reads_anotherItem hline layout level v _ _) ((hread _ hends).bind_nil (.pure _ _))

/-! ## Members -/

/-- Another member follows, which is not the first one if a comma stands before it. -/
theorem reads_anotherMember {line : List Char} (hline : Blanks line) (first : Bool)
    (rest : List Char) :
    Reads (anotherMember first) (if first then line else ',' :: line) true ('"' :: rest) := by
  cases first with
  | true => exact .afterBlanks_nil hline (not_blank_cons (by decide)) (.pure _ _)
  | false =>
    refine .peekAfterBlanks (not_blank_cons (by decide)) ?_
    simp only [Bool.false_eq_true, if_false, List.cons_append, List.head?_cons]
    exact .advance_bind
      (.afterBlanks_nil hline (not_blank_cons (by decide)) (.pure _ _))

/-- No other member follows before the bracket that closes. -/
theorem reads_anotherMember_false {outer : List Char} (houter : Blanks outer) (first : Bool)
    (more : List Char) : Reads (anotherMember first) outer false ('\x7d' :: more) :=
  .afterBlanks_nil houter (not_blank_cons (by decide)) (.pure false _)

/-- A colon stands between a key and its value. -/
theorem reads_readColon (rest : List Char) : Reads readColon [':'] () rest :=
  .peekAfterBlanks (not_blank_cons (by decide)) (.advance ':' rest)

/-- The members of an object are read one after the other, and lead from state to state. -/
inductive MembersRead (layout : Layout) (level : Nat) (member : String → σ → Reader σ) :
    σ → List (String × Value) → σ → Prop where
  | nil (s : σ) : MembersRead layout level member s [] s
  | cons {s t u : σ} {key : String} {v : Value} {ms : List (String × Value)}
      (h : ∀ rest, Ends rest →
        Reads (member key s) (':' :: (layout.space ++ layout.text level v)) t rest)
      (hrest : MembersRead layout level member t ms u) :
      MembersRead layout level member s ((key, v) :: ms) u

/-- Members are read one after the other, up to the bracket that closes. -/
theorem MembersRead.reads {member : String → σ → Reader σ} {s u : σ} {ms : List (String × Value)}
    {line outer : List Char} (hline : Blanks line) (houter : Blanks outer)
    (h : MembersRead layout level member s ms u) :
    Reads (readMembers member s)
      (separated line true (ms.map (memberText layout.space (layout.text level))) ++ outer) u
      ('\x7d' :: more) := by
  rw [readMembers]
  refine Rounds.reads ?_
  suffices hall : ∀ first, Rounds _ (s, first)
      (separated line first (ms.map (memberText layout.space (layout.text level))) ++ outer) u
      ('\x7d' :: more) from hall true
  induction h with
  | nil s =>
    intro first
    exact .last ((reads_anotherMember_false houter _ _).bind_nil (.pure _ _))
  | @cons s t u key v ms h _ ih =>
    intro first
    have hclose : '\x7d' ∈ [']', '\x7d'] := by decide
    have hends : Ends (separated line false (ms.map (memberText layout.space (layout.text level))) ++
        (outer ++ '\x7d' :: more)) := ends_separated line _ houter hclose more
    rw [List.map_cons, separated, List.append_assoc, List.append_assoc, ← List.append_assoc,
      memberText, toList_stringText, List.cons_append]
    refine .next ?_ (List.append_ne_nil_of_right_ne_nil _ (List.cons_ne_nil _ _)) (ih false)
    refine .bind (reads_anotherMember hline first _)
      (.advance_bind (.bind (reads_readString key _) ?_))
    rw [List.append_assoc]
    exact (h _ hends).bind_nil (.pure _ _)

/-! ## Brackets -/

theorem reads_closeSquare (more : List Char) : Reads closeSquare [']'] () more :=
  .peekAfterBlanks (not_blank_cons (by decide)) (.advance ']' more)

theorem reads_closeCurly (more : List Char) : Reads closeCurly ['\x7d'] () more :=
  .peekAfterBlanks (not_blank_cons (by decide)) (.advance '\x7d' more)

/-- An array is read between its brackets. -/
theorem reads_inSquare {body : Nat → Reader α} {depth : Nat} {text : List Char} {a : α}
    (h : Reads (body depth) text a (']' :: more)) :
    Reads (inSquare (depth + 1) body) ('[' :: (text ++ [']'])) a more :=
  .advance_bind (.settling (.bind h (.bind_nil (reads_closeSquare more) (.pure a more))))

/-- An object is read between its brackets. -/
theorem reads_inCurly {body : Nat → Reader α} {depth : Nat} {text : List Char} {a : α}
    (h : Reads (body depth) text a ('\x7d' :: more)) :
    Reads (inCurly (depth + 1) body) ('\x7b' :: (text ++ ['\x7d'])) a more :=
  .advance_bind (.settling (.bind h (.bind_nil (reads_closeCurly more) (.pure a more))))

end Reader

/-! ## Decoders -/

namespace Decoder

variable {α β : Type} {d : Decoder α} {need : Nat} {v : Value} {a : α}

/-- The decoder reads what any layout writes for the value, perhaps behind blanks, for the result,
whenever at least `need` brackets may be open. -/
def Accepts (d : Decoder α) (need : Nat) (v : Value) (a : α) : Prop :=
  ∀ (layout : Layout) (level depth : Nat), need ≤ depth → ∀ blanks, Blanks blanks →
    ∀ more, Ends more → Reads (d.read depth) (blanks ++ layout.text level v) a more

theorem Accepts.mono {enough : Nat} (h : d.Accepts need v a) (hneed : need ≤ enough) :
    d.Accepts enough v a :=
  fun layout level depth hdepth => h layout level depth (Nat.le_trans hneed hdepth)

/-- A value that is accepted is read from any of its texts. -/
theorem parse_text (h : d.Accepts need v a) (hneed : need ≤ maxDepth) (layout : Layout) {s : String}
    (hs : s.toList = layout.text 0 v) : d.parse s = .ok a := by
  refine run_of_reads ?_
  rw [hs]
  refine (h layout 0 maxDepth hneed [] blanks_nil [] ends_nil).bind_nil ?_
  exact .bind_nil (.peekAfterBlanks (fun _ hy => by cases hy) (.pure () [])) (.pure a [])

theorem parse_compact (h : d.Accepts need v a) (hneed : need ≤ maxDepth) :
    d.parse v.compact = .ok a :=
  parse_text h hneed .compact rfl

theorem parse_pretty (h : d.Accepts need v a) (hneed : need ≤ maxDepth) :
    d.parse v.pretty = .ok a :=
  parse_text h hneed .pretty rfl

theorem Accepts.map (h : d.Accepts need v a) (f : α → β) : (d.map f).Accepts need v (f a) :=
  fun layout level depth hdepth blanks hblanks more hmore =>
    (h layout level depth hdepth blanks hblanks more hmore).bind_nil (.pure _ more)

/-! ### Scalars -/

/-- A text is read, whatever messages call it. -/
theorem accepts_textCalled (wanted s : String) : (textCalled wanted).Accepts 0 (.string s) s := by
  intro layout level depth _ blanks hblanks more _
  rw [layout.text_string, toList_stringText]
  refine .afterBlanks hblanks (not_blank_cons (by decide)) ?_
  exact .advance_bind (reads_readString s more)

theorem accepts_text (s : String) : text.Accepts 0 (.string s) s :=
  accepts_textCalled "a string" s

theorem accepts_count {n : Nat} (hn : n < UInt64.size) :
    count.Accepts 0 (.number (.natural n)) n := by
  intro layout level depth _ blanks hblanks more hmore
  rw [layout.text_number, numberText, Text.toList_decimal]
  have hread : Reads (readCount false) (Nat.toDigits 10 n) n more :=
    (reads_readNumber hn hmore).bind_nil (.pure n more)
  obtain ⟨x, rest, hcons⟩ := List.exists_cons_of_ne_nil (IsDigits.toDigits n).ne_nil
  have hdigit : x.isDigit = true :=
    (IsDigits.toDigits n).isDigit x (hcons ▸ List.mem_cons_self)
  rw [hcons] at hread ⊢
  have hplain : ∀ y ∈ [' ', '\t', '\n', '\r', '-'], y.isDigit = false := by simp
  have hx : ∀ y ∈ [' ', '\t', '\n', '\r', '-'], x ≠ y := by
    rintro y hy rfl
    rw [hplain x hy] at hdigit
    cases hdigit
  have hminus : x ≠ '-' := hx '-' (by decide)
  refine .afterBlanks hblanks (fun y hy => ?_) ?_
  · obtain rfl := Option.some.inj hy
    exact fun hblank => hx x (List.mem_append_left ['-'] hblank) rfl
  · simp only [List.cons_append, List.head?_cons, digit?, hdigit, if_true, Option.isSome_some]
    exact hread

/-! ### Absent values, and lists -/

/-- Null stands for an absent value. -/
theorem accepts_null : d.optional.Accepts need .null none := by
  intro layout level depth _ blanks hblanks more _
  rw [layout.text_null]
  refine .afterBlanks hblanks (not_blank_cons (by decide)) ?_
  exact .advance_bind ((reads_readWord _ more).bind_nil (.pure none more))

/-- Before a value that is not null the decoder itself reads. -/
theorem Accepts.optional (h : d.Accepts need v a) (hv : v ≠ .null) :
    d.optional.Accepts need v (some a) := by
  intro layout level depth hdepth blanks hblanks more hmore
  have hread : Reads (d.read depth >>= fun a => return some a) (layout.text level v) (some a) more :=
    (h layout level depth hdepth [] blanks_nil more hmore).bind_nil (.pure _ more)
  refine .afterBlanks hblanks (not_blank_text layout level v more) ?_
  obtain ⟨x, rest, hx, -, hnull⟩ := layout.text_eq_cons level v
  rw [hx] at hread ⊢
  split
  · next hn => exact absurd (Option.some.inj hn) (hnull hv)
  · exact hread

/-- A value that is not null is not the blank one. -/
theorem Accepts.orBlank [Inhabited α] (h : d.Accepts need v a) (hv : v ≠ .null) :
    d.orBlank.Accepts need v a :=
  (h.optional hv).map fun o => o.getD default

/-- A list is read from the array of what is written for its entries. -/
theorem accepts_list {toValue : α → Value} {as : List α}
    (h : ∀ a ∈ as, d.Accepts need (toValue a) a) :
    d.list.Accepts (need + 1) (.array (as.map toValue)) as := by
  intro layout level depth hdepth blanks hblanks more hmore
  obtain ⟨depth, rfl⟩ : ∃ k, depth = k + 1 := ⟨depth - 1, by omega⟩
  have hitems : List.Forall₂ (fun v a => ∀ rest, Ends rest →
      Reads (d.read depth) (layout.text (level + 1) v) a rest) (as.map toValue) as := by
    rw [List.forall₂_map_left_iff, List.forall₂_same]
    intro a ha rest hrest
    exact h a ha layout (level + 1) depth (Nat.le_of_succ_le_succ hdepth) [] blanks_nil rest hrest
  rw [layout.text_array, bracketed]
  refine .afterBlanks hblanks (not_blank_cons (by decide)) ?_
  exact reads_inSquare
    (reads_readItems (layout.blanks_line _) (layout.blanks_closing level _) hitems)

end Decoder

/-! ## Records -/

namespace Record

variable {α : Type} {r : Record α} {need : Nat}

/-- The members of an object are those of some fields in order, each with a value that its field
reads, and together they make one record of another. -/
inductive FieldsRead (need : Nat) : α → List (Field α) → List (String × Value) → α → Prop where
  | nil (a : α) : FieldsRead need a [] [] a
  | cons {a b : α} {f : Field α} {v : Value} {set : α → α} {fs : List (Field α)}
      {ms : List (String × Value)} (h : f.decoder.Accepts need v set)
      (hrest : FieldsRead need (set a) fs ms b) :
      FieldsRead need a (f :: fs) ((f.name, v) :: ms) b

/-- A field that sets a part of the record reads what its decoder reads. -/
theorem FieldsRead.sets {β : Type} {a b : α} {f : Field α} {v : Value} {fs : List (Field α)}
    {ms : List (String × Value)} {d : Decoder β} {set : β → α → α} {x : β}
    (h : d.Accepts need v x) (hf : f.decoder = d.sets set)
    (hrest : FieldsRead need (set x a) fs ms b) :
    FieldsRead need a (f :: fs) ((f.name, v) :: ms) b := by
  refine .cons ?_ hrest
  rw [hf]
  exact h.map set

/-- All names of all fields. -/
def names (r : Record α) : List String :=
  r.fields.flatMap fun f => f.name :: f.aliases

/-- When no name is given twice, the name of a field names that field. -/
theorem field?_name (hnames : r.names.Nodup) {done fs : List (Field α)} {f : Field α}
    (hfields : r.fields = done ++ f :: fs) : r.field? f.name = some f := by
  rw [names, hfields, List.flatMap_append, List.flatMap_cons] at hnames
  have hdone : ∀ g ∈ done, ¬ (f.name = g.name || g.aliases.contains f.name) = true := by
    intro g hg h
    rw [Bool.or_eq_true, decide_eq_true_eq, List.contains_iff_mem, ← List.mem_cons] at h
    refine (List.nodup_append.mp hnames).2.2 f.name ?_ f.name ?_ rfl
    · exact List.mem_flatMap.mpr ⟨g, hg, h⟩
    · exact List.mem_append_left _ List.mem_cons_self
  rw [field?, hfields, List.find?_append, List.find?_eq_none.mpr hdone]
  simp

theorem notMem_names (hnames : r.names.Nodup) {done fs : List (Field α)} {f : Field α}
    (hfields : r.fields = done ++ f :: fs) : f.name ∉ done.map Field.name := by
  rw [names, hfields, List.flatMap_append, List.flatMap_cons] at hnames
  intro h
  obtain ⟨g, hg, hname⟩ := List.mem_map.mp h
  refine (List.nodup_append.mp hnames).2.2 f.name ?_ f.name ?_ rfl
  · exact List.mem_flatMap.mpr ⟨g, hg, hname ▸ List.mem_cons_self⟩
  · exact List.mem_append_left _ List.mem_cons_self

/-- Once all fields have been set, none is missing. -/
theorem missing?_eq_none {seen : List String} (h : ∀ f ∈ r.fields, f.name ∈ seen) :
    r.missing? seen = none := by
  rw [missing?, Option.map_eq_none_iff, List.find?_eq_none]
  intro f hf
  simp [h f hf]

/-- The members of the object of a record are read, and set its fields. -/
theorem FieldsRead.membersRead (hnames : r.names.Nodup) {a b : α} {fs : List (Field α)}
    {ms : List (String × Value)} (h : FieldsRead need a fs ms b) {done : List (Field α)}
    (hfields : r.fields = done ++ fs) (layout : Layout) (level : Nat) {depth : Nat}
    (hdepth : need ≤ depth) :
    MembersRead layout level (r.readMember depth) (a, (done.map Field.name).reverse) ms
      (b, (r.fields.map Field.name).reverse) := by
  induction h generalizing done with
  | nil a =>
    rw [hfields, List.append_nil]
    exact .nil _
  | @cons a b f v set fs ms h _ ih =>
    have hunseen : (done.map Field.name).reverse.contains f.name = false := by
      rw [Bool.eq_false_iff, ne_eq, List.contains_iff_mem, List.mem_reverse]
      exact notMem_names hnames hfields
    have hsplit : r.fields = (done ++ [f]) ++ fs := by
      rw [hfields, List.append_assoc]
      rfl
    have hnext := ih hsplit
    rw [List.map_append, List.reverse_append] at hnext
    refine .cons (fun rest hrest => ?_) hnext
    rw [readMember, field?_name hnames hfields]
    simp only [hunseen, Bool.false_eq_true, if_false]
    have hread := h layout level depth hdepth layout.space layout.blanks_space rest hrest
    exact .bind (reads_readColon _) (hread.bind_nil (.pure _ rest))

end Record

namespace Decoder

variable {α : Type}

/-- A record is read from an object whose members make it, when no field is missing then. -/
theorem accepts_of_membersRead {r : Record α} {need : Nat} {a : α} {ms : List (String × Value)}
    (h : ∀ (layout : Layout) (level depth : Nat), need ≤ depth → ∃ seen,
      MembersRead layout level (r.readMember depth) (r.blank, []) ms (a, seen) ∧
        r.missing? seen = none) :
    (record r).Accepts (need + 1) (.object ms) a := by
  intro layout level depth hdepth blanks hblanks more _
  obtain ⟨depth, rfl⟩ : ∃ k, depth = k + 1 := ⟨depth - 1, by omega⟩
  obtain ⟨seen, hmembers, hmissing⟩ := h layout (level + 1) depth (Nat.le_of_succ_le_succ hdepth)
  rw [layout.text_object, bracketed]
  refine .afterBlanks hblanks (not_blank_cons (by decide)) ?_
  refine reads_inCurly ((hmembers.reads (layout.blanks_line _)
    (layout.blanks_closing level _)).bind_nil ?_)
  simp only [hmissing]
  exact .pure a _

/-- A record is read from an object with its keys in order, each with a value that its field
reads. -/
theorem accepts_record {r : Record α} {need : Nat} {a : α} {ms : List (String × Value)}
    (hnames : r.names.Nodup) (h : Record.FieldsRead need r.blank r.fields ms a) :
    (record r).Accepts (need + 1) (.object ms) a := by
  have hseen : ∀ f ∈ r.fields, f.name ∈ (r.fields.map Field.name).reverse := fun f hf =>
    List.mem_reverse.mpr (List.mem_map_of_mem hf)
  exact accepts_of_membersRead fun layout level depth hdepth =>
    ⟨_, h.membersRead hnames (List.nil_append _).symm layout level hdepth,
      Record.missing?_eq_none hseen⟩

/-- A known word is read from its string. -/
theorem accepts_word {words : List (String × α)} {word : String} {a : α}
    (h : known words word = .ok a) : (Decoder.word words).Accepts 0 (.string word) a := by
  intro layout level depth _ blanks hblanks more hmore
  have hread := accepts_textCalled "variant identifier" word layout level depth (Nat.zero_le depth)
    [] blanks_nil more hmore
  have hword : Reads (readKnown words) (layout.text level (.string word)) a more := by
    refine hread.bind_nil ?_
    rw [h]
    exact .pure a more
  refine .afterBlanks hblanks (not_blank_text layout level _ more) ?_
  rw [layout.text_string, toList_stringText] at hword ⊢
  exact hword

end Decoder

end Pipewright.Json
