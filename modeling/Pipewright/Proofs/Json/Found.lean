import Pipewright.Proofs.Json.Closing
import Pipewright.Json.Decoder

/-!
# What is read is JSON

A decoder that reads a value has stepped over a text in the grammar: a scalar, or brackets with the
elements that the decoders of its parts have stepped over.  So each whole text that is read is one
of a tree.

* `Reader.leads_readItems`, `Reader.leads_readMembers`: what stands between brackets.
* `Decoder.Finds`: decoders that find a value.
* `Decoder.finds_textCalled`, `Decoder.finds_count`: scalars.
* `Decoder.Finds.optional`, `Decoder.Finds.list`, `Decoder.finds_record`: derived shapes.
* `Decoder.Finds.exists_isOf`: a whole text that is read has a tree.
-/

namespace Pipewright.Json

open Reader

/-- Blanks may stand behind the last element. -/
theorem Joined.append_blanks {first : Bool} {elements : List (List Char)} {s blanks : List Char}
    (h : Joined first elements s) (hblanks : Blanks blanks) :
    Joined first elements (s ++ blanks) := by
  induction h with
  | nil h => exact .nil (List.forall_mem_append.mpr ⟨h, hblanks⟩)
  | cons hlead _ ih =>
    rw [List.append_assoc, List.append_assoc]
    exact .cons hlead ih

theorem Lead.append_blanks {first : Bool} {lead blanks : List Char} (h : Lead first lead)
    (hblanks : Blanks blanks) : Lead first (lead ++ blanks) := by
  cases h with
  | first h => exact .first (List.forall_mem_append.mpr ⟨h, hblanks⟩)
  | next hbefore hafter =>
    rw [List.append_assoc]
    exact .next hbefore (List.forall_mem_append.mpr ⟨hafter, hblanks⟩)

namespace Reader

variable {α σ : Type} {r : Reader α} {text : List Char}

/-! ## Brackets -/

/-- Elements are joined at the start of the text, and then the rest. -/
def Joins (b : Bracket) (first : Bool) (text rest : List Char) : Prop :=
  ∃ elements s, Joined first elements s ∧ (∀ e ∈ elements, Element b e) ∧ text = s ++ rest

theorem joins_nil (b : Bracket) (first : Bool) {blanks : List Char} (hblanks : Blanks blanks)
    (rest : List Char) : Joins b first (blanks ++ rest) rest :=
  ⟨[], blanks, .nil hblanks, List.forall_mem_nil _, rfl⟩

theorem Joins.cons {b : Bracket} {first : Bool} {lead e rest : List Char} (hlead : Lead first lead)
    (he : Element b e) (h : Joins b false text rest) :
    Joins b first (lead ++ (e ++ text)) rest := by
  obtain ⟨elements, s, hjoined, helements, rfl⟩ := h
  exact ⟨e :: elements, _, .cons hlead hjoined, List.forall_mem_cons.mpr ⟨he, helements⟩, by simp⟩

/-- Elements that are joined up to the bracket that closes make a value. -/
theorem Joins.stands {b : Bracket} {blanks rest : List Char} (hblanks : Blanks blanks)
    (h : Joins b true text (blanks ++ b.closing :: rest)) :
    Stands (b.opening :: text) rest := by
  obtain ⟨elements, s, hjoined, helements, rfl⟩ := h
  obtain ⟨t, ht⟩ := exists_spells_bracketed (hjoined.append_blanks hblanks) helements
  exact ⟨t, [], _, blanks_nil, ht, by simp⟩

theorem leads_closeSquare (text : List Char) :
    Leads closeSquare text fun _ rest => Past Blanks text (']' :: rest) := by
  refine .afterBlanks fun blanks rest hblanks htext => ?_
  subst htext
  split
  · next hnext =>
    obtain ⟨more, rfl⟩ := List.head?_eq_some_iff.mp hnext
    exact .advance ⟨blanks, hblanks, rfl⟩
  · refine .of_never (.bind fun _ => .bind fun next => ?_)
    split
    · exact .failAtNext _ _
    · exact .failAtNext _ _
  · exact .failAtNext _
  · exact .failAtNext _

theorem leads_closeCurly (text : List Char) :
    Leads closeCurly text fun _ rest => Past Blanks text ('\x7d' :: rest) := by
  refine .afterBlanks fun blanks rest hblanks htext => ?_
  subst htext
  split
  · next hnext =>
    obtain ⟨more, rfl⟩ := List.head?_eq_some_iff.mp hnext
    exact .advance ⟨blanks, hblanks, rfl⟩
  · exact .failAtNext _
  · exact .failAtNext _
  · exact .failAtNext _

/-- An array whose items are joined is a value. -/
theorem leads_inSquare {body : Nat → Reader α}
    (h : ∀ d, Leads (body d) text fun _ rest => Joins .square true text rest) (depth : Nat) :
    Leads (inSquare depth body) ('[' :: text) fun _ rest => Stands ('[' :: text) rest := by
  cases depth with
  | zero => exact .failAtNext _
  | succ d =>
    refine .advance_bind (.settling (.bind (h d) fun _ more hmore => ?_))
    refine .bind (leads_closeSquare more) fun _ rest hrest => .pure ?_
    obtain ⟨blanks, hblanks, rfl⟩ := hrest
    exact Joins.stands (b := .square) hblanks hmore

/-- An object whose members are joined is a value. -/
theorem leads_inCurly {body : Nat → Reader α}
    (h : ∀ d, Leads (body d) text fun _ rest => Joins .curly true text rest) (depth : Nat) :
    Leads (inCurly depth body) ('\x7b' :: text) fun _ rest => Stands ('\x7b' :: text) rest := by
  cases depth with
  | zero => exact .failAtNext _
  | succ d =>
    refine .advance_bind (.settling (.bind (h d) fun _ more hmore => ?_))
    refine .bind (leads_closeCurly more) fun _ rest hrest => .pure ?_
    obtain ⟨blanks, hblanks, rfl⟩ := hrest
    exact Joins.stands (b := .curly) hblanks hmore

/-- Whether another item follows is seen behind what stands before it, or before the bracket that
closes. -/
theorem leads_anotherItem (first : Bool) (text : List Char) :
    Leads (anotherItem first) text fun more rest =>
      if more then ∃ lead, Lead first lead ∧ text = lead ++ rest
      else ∃ blanks, Blanks blanks ∧ rest.head? = some ']' ∧ text = blanks ++ rest := by
  refine .afterBlanks fun blanks rest hblanks htext => ?_
  subst htext
  split
  · exact .failAtNext _
  · next hnext => exact .pure ⟨blanks, hblanks, hnext, rfl⟩
  · next x _ hnext =>
    obtain ⟨more, rfl⟩ := List.head?_eq_some_iff.mp hnext
    split
    · next hfirst =>
      subst hfirst
      exact .pure ⟨blanks, .first hblanks, rfl⟩
    · next hfirst =>
      obtain rfl : first = false := Bool.eq_false_iff.mpr hfirst
      split
      · next hcomma =>
        subst hcomma
        refine .advance_bind (.afterBlanks fun after rest hafter hrest => ?_)
        subst hrest
        split
        · exact .failAtNext _
        · exact .pure ⟨blanks ++ ',' :: after, .next hblanks hafter, by simp⟩
        · exact .failAtNext _
      · exact .failAtNext _

/-- Before the bracket that closes no other item follows. -/
theorem leads_anotherItem_end (first : Bool) (more : List Char) :
    Leads (anotherItem first) (']' :: more) fun another rest =>
      another = false ∧ rest = ']' :: more := by
  refine .afterBlanks fun blanks rest hblanks htext => ?_
  cases blanks with
  | nil =>
    obtain rfl : ']' :: more = rest := htext
    exact .pure ⟨rfl, rfl⟩
  | cons x blanks =>
    obtain ⟨rfl, -⟩ := List.cons.inj htext
    exact absurd (hblanks _ List.mem_cons_self) (by decide)

theorem leads_anotherMember (first : Bool) (text : List Char) :
    Leads (anotherMember first) text fun more rest =>
      if more then ∃ lead, Lead first lead ∧ rest.head? = some '"' ∧ text = lead ++ rest
      else ∃ blanks, Blanks blanks ∧ text = blanks ++ rest := by
  refine .afterBlanks fun blanks rest hblanks htext => ?_
  subst htext
  split
  · exact .failAtNext _
  · exact .pure ⟨blanks, hblanks, rfl⟩
  · next x _ hnext =>
    obtain ⟨more, rfl⟩ := List.head?_eq_some_iff.mp hnext
    split
    · next hfirst =>
      subst hfirst
      split
      · next hquote => exact .pure ⟨blanks, .first hblanks, congrArg some hquote, rfl⟩
      · exact .failAtNext _
    · next hfirst =>
      obtain rfl : first = false := Bool.eq_false_iff.mpr hfirst
      split
      · next hcomma =>
        subst hcomma
        refine .advance_bind (.afterBlanks fun after rest hafter hrest => ?_)
        subst hrest
        split
        · next hquote =>
          exact .pure ⟨blanks ++ ',' :: after, .next hblanks hafter, hquote, by simp⟩
        · exact .failAtNext _
        · exact .failAtNext _
        · exact .failAtNext _
      · exact .failAtNext _

/-- A value behind what stands before it is an item. -/
theorem Joins.item {first : Bool} {lead more rest : List Char} (hlead : Lead first lead)
    (hitem : Stands text more) (h : Joins .square false more rest) :
    Joins .square first (lead ++ text) rest := by
  obtain ⟨t, blanks, s, hblanks, ht, rfl⟩ := hitem
  have helement : Element .square s := ⟨t, [], [], s, .square, ht, rfl⟩
  have hjoins := Joins.cons (hlead.append_blanks hblanks) helement h
  rw [List.append_assoc] at hjoins
  exact hjoins

/-- Items are read one after the other. -/
theorem leads_readItems {item : Reader α}
    (hitem : ∀ text, Leads item text fun _ rest => Stands text rest) (text : List Char) :
    Leads (readItems item) text fun _ rest => Joins .square true text rest := by
  refine Leads.iterate (Q := fun (soFar : List α) text _ rest =>
    Joins .square soFar.isEmpty text rest) (fun soFar text => ?_) [] text
  refine .bind (leads_anotherItem soFar.isEmpty text) fun more rest hmore => ?_
  cases more with
  | false =>
    obtain ⟨blanks, hblanks, -, rfl⟩ := hmore
    exact .pure (joins_nil _ _ hblanks rest)
  | true =>
    obtain ⟨lead, hlead, rfl⟩ := hmore
    exact .bind (hitem rest) fun _ next hnext => .pure fun _ last hlast => hlast.item hlead hnext

/-- A member from its colon on stands at the start of the text, and then the rest. -/
def Tails (text rest : List Char) : Prop :=
  ∃ before more, Blanks before ∧ Stands more rest ∧ text = before ++ ':' :: more

theorem leads_readColon (text : List Char) :
    Leads readColon text fun _ rest => Past Blanks text (':' :: rest) := by
  refine .afterBlanks fun blanks rest hblanks htext => ?_
  subst htext
  split
  · next hnext =>
    obtain ⟨more, rfl⟩ := List.head?_eq_some_iff.mp hnext
    exact .advance ⟨blanks, hblanks, rfl⟩
  · exact .failAtNext _
  · exact .failAtNext _

/-- Members are read one after the other. -/
theorem leads_readMembers {member : String → σ → Reader σ}
    (hmember : ∀ key s text, Leads (member key s) text fun _ rest => Tails text rest) (s : σ)
    (text : List Char) :
    Leads (readMembers member s) text fun _ rest => Joins .curly true text rest := by
  refine Leads.iterate (Q := fun (state : σ × Bool) text _ rest => Joins .curly state.2 text rest)
    (fun state text => ?_) (s, true) text
  refine .bind (leads_anotherMember state.2 text) fun more rest hmore => ?_
  cases more with
  | false =>
    obtain ⟨blanks, hblanks, rfl⟩ := hmore
    exact .pure (joins_nil _ _ hblanks rest)
  | true =>
    obtain ⟨lead, hlead, hquote, rfl⟩ := hmore
    obtain ⟨rest, rfl⟩ := List.head?_eq_some_iff.mp hquote
    refine .advance_bind (.bind (leads_readString rest) fun key more hkey => ?_)
    obtain ⟨cs, hcs, rfl⟩ := hkey
    refine .bind (hmember key state.1 more) fun _ next hnext => .pure fun _ last hlast => ?_
    obtain ⟨before, _, hbefore, ⟨t, after, s, hafter, ht, rfl⟩, rfl⟩ := hnext
    have helement : Element .curly _ := ⟨t, _, after, s, .curly hcs hbefore hafter, ht, rfl⟩
    have hjoins := Joins.cons hlead helement hlast
    simpa using hjoins

theorem leads_endOfText (text : List Char) : Leads endOfText text fun _ _ => Blanks text := by
  refine .afterBlanks fun blanks rest hblanks htext => ?_
  subst htext
  split
  · next hnext =>
    rw [List.head?_eq_none_iff.mp hnext, List.append_nil]
    exact .pure hblanks
  · exact .failAtNext _

end Reader

/-! ## Decoders -/

namespace Decoder

variable {α β : Type} {d : Decoder α} {text : List Char}

/-- What the decoder has read is a value, perhaps with blanks before it. -/
def Finds (d : Decoder α) : Prop :=
  ∀ depth text, Leads (d.read depth) text fun _ rest => Stands text rest

theorem finds_textCalled (wanted : String) : (textCalled wanted).Finds := by
  refine fun depth text => .afterBlanks fun blanks rest hblanks htext => ?_
  subst htext
  split
  · exact .failAtNext _
  · next hnext =>
    obtain ⟨more, rfl⟩ := List.head?_eq_some_iff.mp hnext
    refine .advance_bind ((leads_readString more).mono fun _ last h => ?_)
    obtain ⟨cs, hcs, rfl⟩ := h
    exact ⟨_, blanks, _, hblanks, .string hcs, by simp⟩
  · exact .of_never (gives_wrongKind _ _)

theorem leads_readCount (negative : Bool) (text : List Char) :
    Leads (readCount negative) text fun _ rest => Past MagnitudeText text rest := by
  refine .bind (leads_readNumber negative text) fun n rest h => ?_
  split
  · exact .pure h
  · exact .failHere _

theorem finds_count : count.Finds := by
  refine fun depth text => .afterBlanks fun blanks rest hblanks htext => ?_
  subst htext
  split
  · exact .failAtNext _
  · next hnext =>
    obtain ⟨more, rfl⟩ := List.head?_eq_some_iff.mp hnext
    refine .advance_bind ((leads_readCount true more).mono fun _ last h => ?_)
    obtain ⟨cs, hcs, rfl⟩ := h
    exact ⟨_, blanks, _, hblanks, .number (.negative hcs), rfl⟩
  · split
    · refine (leads_readCount false rest).mono fun _ last h => ?_
      obtain ⟨cs, hcs, rfl⟩ := h
      exact ⟨_, blanks, cs, hblanks, .number (.plain hcs), rfl⟩
    · exact .of_never (gives_wrongKind _ _)

theorem Finds.map (h : d.Finds) (f : α → β) : (d.map f).Finds :=
  fun depth text => .bind (h depth text) fun _ _ hrest => .pure hrest

theorem Finds.optional (h : d.Finds) : d.optional.Finds := by
  refine fun depth text => .afterBlanks fun blanks rest hblanks htext => ?_
  subst htext
  split
  · next hnext =>
    obtain ⟨more, rfl⟩ := List.head?_eq_some_iff.mp hnext
    refine .advance_bind (.bind (leads_readWord _ more) fun _ last hlast => .pure ?_)
    subst hlast
    exact ⟨_, blanks, _, hblanks, .null, rfl⟩
  · exact .bind (h depth rest) fun _ _ hlast => .pure (hlast.behind hblanks)

theorem Finds.list (h : d.Finds) : d.list.Finds := by
  refine fun depth text => .afterBlanks fun blanks rest hblanks htext => ?_
  subst htext
  split
  · exact .failAtNext _
  · next hnext =>
    obtain ⟨more, rfl⟩ := List.head?_eq_some_iff.mp hnext
    refine (leads_inSquare (fun inner => leads_readItems (h inner) more) depth).mono ?_
    exact fun _ _ hlast => hlast.behind hblanks
  · exact .of_never (gives_wrongKind _ _)

end Decoder

/-! ## Records -/

namespace Record

variable {α : Type} {r : Record α}

/-- What a member has is a value, be it one of a field or of another key. -/
theorem leads_readMember (hother : r.other = none) (hfields : ∀ f ∈ r.fields, f.decoder.Finds)
    (depth : Nat) (key : String) (p : Progress α) (text : List Char) :
    Leads (r.readMember depth key p) text fun _ rest => Tails text rest := by
  rw [readMember]
  split
  · next f hfield =>
    split
    · exact .failOpen _
    · refine .bind (leads_readColon text) fun _ more hmore => ?_
      obtain ⟨before, hbefore, rfl⟩ := hmore
      refine .bind (hfields f (List.mem_of_find?_eq_some hfield) depth more) fun _ rest h => ?_
      exact .pure ⟨before, more, hbefore, h, rfl⟩
  · refine .bind (leads_readColon text) fun _ more hmore => ?_
    obtain ⟨before, hbefore, rfl⟩ := hmore
    rw [hother]
    refine .bind (leads_skipValue more) fun _ rest h => ?_
    exact .pure ⟨before, more, hbefore, h, rfl⟩

theorem leads_readObject (hother : r.other = none) (hfields : ∀ f ∈ r.fields, f.decoder.Finds)
    (depth : Nat) (text : List Char) :
    Leads (r.readObject depth) text fun _ rest => Joins .curly true text rest := by
  refine .bind (leads_readMembers (leads_readMember hother hfields depth) _ text) fun p rest h => ?_
  obtain ⟨a, seen⟩ := p
  dsimp only
  split
  · exact .failOpen _
  · exact .pure h

/-- Before the bracket that closes no field is read. -/
theorem leads_readFields_end (r : Record α) (depth : Nat) (fs : List (Field α)) (index : Nat)
    (a : α) (more : List Char) :
    Leads (r.readFields depth index fs a) (']' :: more) fun _ rest => rest = ']' :: more := by
  induction fs generalizing index with
  | nil => exact .pure rfl
  | cons f fs ih =>
    rw [readFields]
    refine .bind (leads_anotherItem_end _ more) fun another rest hrest => ?_
    obtain ⟨rfl, rfl⟩ := hrest
    rw [if_neg Bool.false_ne_true]
    split
    · exact .failOpen _
    · exact ih (index + 1)

/-- Items are read one for each field. -/
theorem leads_readFields (r : Record α) (depth : Nat) {fs : List (Field α)}
    (hfields : ∀ f ∈ fs, f.decoder.Finds) (index : Nat) (a : α) (text : List Char) :
    Leads (r.readFields depth index fs a) text fun _ rest =>
      Joins .square (index = 0) text rest := by
  induction fs generalizing index a text with
  | nil => exact .pure (joins_nil .square _ blanks_nil text)
  | cons f fs ih =>
    obtain ⟨hf, hfs⟩ := List.forall_mem_cons.mp hfields
    rw [readFields]
    refine .bind (leads_anotherItem _ text) fun another rest hanother => ?_
    cases another with
    | true =>
      obtain ⟨lead, hlead, rfl⟩ := hanother
      refine .bind (hf depth rest) fun set more hmore => ?_
      exact (ih hfs (index + 1) (set a) more).mono fun _ last hlast => hlast.item hlead hmore
    | false =>
      obtain ⟨blanks, hblanks, hclose, rfl⟩ := hanother
      obtain ⟨more, rfl⟩ := List.head?_eq_some_iff.mp hclose
      rw [if_neg Bool.false_ne_true]
      split
      · exact .failOpen _
      · refine (leads_readFields_end r depth fs (index + 1) a more).mono fun _ last hlast => ?_
        subst hlast
        exact joins_nil .square _ hblanks _

end Record

namespace Decoder

variable {α : Type} {d : Decoder α}

theorem finds_record {r : Record α} (hother : r.other = none)
    (hfields : ∀ f ∈ r.fields, f.decoder.Finds) : (record r).Finds := by
  refine fun depth text => .afterBlanks fun blanks rest hblanks htext => ?_
  subst htext
  split
  · exact .failAtNext _
  · next hnext =>
    obtain ⟨more, rfl⟩ := List.head?_eq_some_iff.mp hnext
    refine (leads_inCurly (fun inner => Record.leads_readObject hother hfields inner more)
      depth).mono ?_
    exact fun _ _ hlast => hlast.behind hblanks
  · next hnext =>
    obtain ⟨more, rfl⟩ := List.head?_eq_some_iff.mp hnext
    split
    · exact .of_never (gives_wrongKind _ _)
    · refine (leads_inSquare (fun inner => Record.leads_readFields r inner hfields 0 r.blank more)
        depth).mono ?_
      exact fun _ _ hlast => hlast.behind hblanks
  · exact .of_never (gives_wrongKind _ _)

/-- A scalar is found as a value. -/
theorem leads_readValue (depth : Nat) (text : List Char) :
    Leads (readValue depth) text fun v rest =>
      (∃ items, v = .array items) ∨ (∃ members, v = .object members) ∨ Stands text rest := by
  rw [readValue.eq_def]
  refine .afterBlanks fun blanks rest hblanks htext => ?_
  subst htext
  have hword : ∀ {x : Char} {word more : List Char} {t : Written} (v : Value),
      t.Spells (x :: word) → rest = x :: more → Leads (do readWord word; return v) more
        fun v last => (∃ items, v = .array items) ∨ (∃ members, v = .object members) ∨
          Stands (blanks ++ rest) last := by
    rintro x word more t v ht rfl
    refine .bind (leads_readWord word more) fun _ last h => .pure (.inr (.inr ?_))
    subst h
    exact ⟨t, blanks, x :: word, hblanks, ht, rfl⟩
  split
  · exact .failAtNext _
  · next hnext =>
    obtain ⟨more, rfl⟩ := List.head?_eq_some_iff.mp hnext
    exact .advance_bind (hword _ .null rfl)
  · next hnext =>
    obtain ⟨more, rfl⟩ := List.head?_eq_some_iff.mp hnext
    exact .advance_bind (hword _ .truth rfl)
  · next hnext =>
    obtain ⟨more, rfl⟩ := List.head?_eq_some_iff.mp hnext
    exact .advance_bind (hword _ .falsehood rfl)
  · next hnext =>
    obtain ⟨more, rfl⟩ := List.head?_eq_some_iff.mp hnext
    refine .advance_bind (.bind (leads_readNumber true more) fun _ last h => .pure ?_)
    obtain ⟨cs, hcs, rfl⟩ := h
    exact .inr (.inr ⟨_, blanks, _, hblanks, .number (.negative hcs), rfl⟩)
  · next hnext =>
    obtain ⟨more, rfl⟩ := List.head?_eq_some_iff.mp hnext
    refine .advance_bind (.bind (leads_readString more) fun _ last h => .pure ?_)
    obtain ⟨cs, hcs, rfl⟩ := h
    exact .inr (.inr ⟨_, blanks, _, hblanks, .string hcs, by simp⟩)
  · split
    · exact .failAtNext _
    · exact (Leads.of_gives (gives_inSquare
        (fun _ => .bind fun items => .pure ⟨items, rfl⟩) _)).mono fun _ _ h => .inl h
  · split
    · exact .failAtNext _
    · exact (Leads.of_gives (gives_inCurly
        (fun _ => .bind fun members => .pure ⟨members, rfl⟩) _)).mono fun _ _ h => .inr (.inl h)
  · split
    · refine .bind (leads_readNumber false rest) fun _ last h => .pure ?_
      obtain ⟨cs, hcs, rfl⟩ := h
      exact .inr (.inr ⟨_, blanks, cs, hblanks, .number (.plain hcs), rfl⟩)
    · exact .failAtNext _

/-- A whole text that is read is one of a tree. -/
theorem Finds.exists_isOf (h : d.Finds) {source : String} {a : α} (ha : d.parse source = .ok a) :
    ∃ t : Written, t.IsOf source := by
  have hwhole : Leads (do let a ← d.read maxDepth; endOfText; return a) source.toList fun _ _ =>
      ∃ t : Written, t.IsOf source := by
    refine .bind (h maxDepth source.toList) fun a more hmore => ?_
    obtain ⟨t, before, s, hbefore, ht, hsource⟩ := hmore
    refine .bind (leads_endOfText more) fun _ _ hafter => .pure ?_
    exact ⟨t, before, s, more, hsource, hbefore, ht, hafter⟩
  exact hwhole.of_run ha

end Decoder

end Pipewright.Json
