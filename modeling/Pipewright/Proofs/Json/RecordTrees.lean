import Pipewright.Proofs.Json.Trees

/-!
# Records see trees

A record is seen in an object member by member: a key names a field or none, a field is set once,
and the values of other keys change nothing.  In an array it is seen item by item, one for each
field in order.

* `Reader.outcome_readMembers`: the members of an object.
* `Record.step`, `Record.finish`, `Decoder.yields_object`: records in objects.
* `Record.inOrder`, `Decoder.yields_fields`: records in arrays.
* `Decoder.steady_record`: the texts of a tree are read alike.
-/

namespace Pipewright.Json

open Reader

namespace Reader

variable {σ : Type} {more : List Char}

/-! ## Members -/

/-- Another member follows behind what stands before it. -/
theorem reads_anotherMember_lead {first : Bool} {lead : List Char} (hlead : Lead first lead)
    (rest : List Char) : Reads (anotherMember first) lead true ('"' :: rest) := by
  cases hlead with
  | first hblanks =>
    exact .afterBlanks_nil hblanks (not_blank_cons (by decide)) (.pure _ _)
  | @next before after hbefore hafter =>
    refine .afterBlanks hbefore (not_blank_cons (by decide)) ?_
    simp only [Bool.false_eq_true, if_false, List.cons_append, List.head?_cons]
    exact .advance_bind
      (.afterBlanks_nil hafter (not_blank_cons (by decide)) (.pure _ _))

/-- The members of an object are read one after the other, each one for what its key does with its
value. -/
theorem outcome_readMembers {member : String → σ → Reader σ} {g : String → σ → Written → Option σ}
    {members : List MemberSpelling} (hformed : ∀ m ∈ members, m.Formed)
    (hread : ∀ m ∈ members, ∀ key s rest, Ends rest →
      Outcome (member key s) m.tail (g key s m.value) rest) {text : List Char}
    (hjoined : Joined true (members.map MemberSpelling.spelling) text) (s : σ) :
    Outcome (readMembers member s) text
      ((members.map MemberSpelling.member).foldlM
        (fun s m => (heard m.1).bind fun key => g key s m.2) s) ('\x7d' :: more) := by
  rw [readMembers]
  refine Repeats.outcome ?_
  suffices hall : ∀ (first : Bool) (text : List Char) (s : σ),
      Joined first (members.map MemberSpelling.spelling) text → Repeats _ (s, first) text
        ((members.map MemberSpelling.member).foldlM
          (fun s m => (heard m.1).bind fun key => g key s m.2) s) ('\x7d' :: more) from
    hall true text s hjoined
  clear hjoined text s
  intro first text s hjoined
  induction members generalizing first s text with
  | nil =>
    cases hjoined with | nil hblanks =>
    exact .last ((reads_anotherMember_false hblanks _ _).bind_nil (.pure _ _))
  | cons m members ih =>
    obtain ⟨hm, hformed⟩ := List.forall_mem_cons.mp hformed
    obtain ⟨hmread, hread⟩ := List.forall_mem_cons.mp hread
    cases hjoined with | @cons _ lead _ rest _ hlead hrest =>
    have hends : Ends (rest ++ '\x7d' :: more) := ends_joined hrest (by decide) more
    have hnext : ((m :: members).map MemberSpelling.member).foldlM
          (fun s m => (heard m.1).bind fun key => g key s m.2) s =
        (((heard m.key).bind fun key => g key s m.value).map (·, false)).bind fun state =>
          (members.map MemberSpelling.member).foldlM
            (fun s m => (heard m.1).bind fun key => g key s m.2) state.1 := by
      rw [List.map_cons, List.foldlM_cons, Option.bind_map]
      rfl
    rw [hnext, ← List.append_assoc]
    refine .bind ?_ (List.append_ne_nil_of_right_ne_nil _ (List.cons_ne_nil _ _))
      fun state hstate => ?_
    · have hkey : m.spelling = '"' :: ((m.key ++ ['"']) ++ m.tail) := by
        simp [MemberSpelling.spelling]
      rw [hkey, Option.map_map, Option.map_bind]
      refine .bind_reads (reads_anotherMember_lead hlead _) (.advance_bind ?_)
      refine .bind (outcome_readString hm.key _) fun key _ => ?_
      exact .map (hmread key s _ hends)
    · obtain ⟨t, -, rfl⟩ := Option.map_eq_some_iff.mp hstate
      exact ih hformed hread false rest t hrest

end Reader

namespace Record

variable {α : Type} (r : Record α)

/-- The record skips the values of other keys, and its fields read all texts of a tree alike. -/
structure Steady (need : Nat) : Prop where
  other : r.other = none
  fields : ∀ f ∈ r.fields, f.decoder.Steady need
  depth : need + 1 ≤ Decoder.maxDepth

/-- What the value of a key does to the record that has been read so far. -/
noncomputable def put (key : String) (p : Progress α) (t : Written) : Option (Progress α) :=
  match r.field? key with
  | some f =>
    if p.2.contains f.name then none
    else (f.decoder.seen t).map fun set => (set p.1, f.name :: p.2)
  | none => some p

/-- What a member does to the record that has been read so far. -/
noncomputable def step (p : Progress α) (m : List Char × Written) : Option (Progress α) :=
  (heard m.1).bind fun key => r.put key p m.2

/-- The record, when no field is missing. -/
def finish (p : Progress α) : Option α :=
  match r.missing? p.2 with
  | some _ => none
  | none => some p.1

/-- What the items of an array make of the record that has been read so far, one for each field. -/
noncomputable def inOrder : List (Field α) → List Written → α → Option α
  | [], [], a => some a
  | [], _ :: _, _ => none
  | f :: fs, [], a => if f.required then none else inOrder fs [] a
  | f :: fs, t :: ts, a => (f.decoder.seen t).bind fun set => inOrder fs ts (set a)

variable {r} {need depth : Nat} {more : List Char}

/-- A colon stands between a key and its value. -/
theorem reads_readColon_behind {blanks : List Char} (hblanks : Blanks blanks) (rest : List Char) :
    Reads readColon (blanks ++ [':']) () rest :=
  .afterBlanks hblanks (not_blank_cons (by decide)) (.advance ':' rest)

/-- A member is read behind its key for what its value does to the record. -/
theorem outcome_readMember (hr : r.Steady need) (hdepth : need ≤ depth) {m : MemberSpelling}
    (hm : m.Formed) (hvalue : m.value.Spells m.text) (key : String) (p : Progress α)
    {rest : List Char} (hrest : Ends rest) :
    Outcome (r.readMember depth key p) m.tail (r.put key p m.value) rest := by
  have htail : m.tail = (m.before ++ [':']) ++ (m.after ++ m.text) := by
    simp [MemberSpelling.tail]
  rw [readMember, htail, put]
  cases hfield : r.field? key with
  | some f =>
    dsimp only
    split
    · exact .failOpen _ _ _
    · have hf := hr.fields f (List.mem_of_find?_eq_some hfield)
      have hread := hf.yields m.value depth hdepth m.text hvalue m.after hm.after rest hrest
      exact .bind_reads (reads_readColon_behind hm.before _) (.map hread)
  | none =>
    refine .bind_reads (reads_readColon_behind hm.before _) ?_
    rw [hr.other]
    exact (reads_skipValue hvalue hm.after hrest).bind_nil (.pure p rest)

/-- An object is read for the record that its members make. -/
theorem outcome_readObject (hr : r.Steady need) (hdepth : need ≤ depth)
    {members : List MemberSpelling} (hmembers : ∀ m ∈ members, m.value.Spells m.text)
    (hformed : ∀ m ∈ members, m.Formed) {text : List Char}
    (hjoined : Joined true (members.map MemberSpelling.spelling) text) :
    Outcome (r.readObject depth) text
      (((members.map MemberSpelling.member).foldlM r.step (r.blank, [])).bind r.finish)
      ('\x7d' :: more) := by
  refine .bind_nil (outcome_readMembers (g := r.put) hformed (fun m hm key p rest hrest =>
    outcome_readMember hr hdepth (hformed m hm) (hmembers m hm) key p hrest) hjoined
    (r.blank, [])) fun p _ => ?_
  obtain ⟨a, names⟩ := p
  show Outcome
    (match r.missing? names with
    | some name => failOpen (.missingField name)
    | none => return a) []
    (match r.missing? names with
    | some _ => none
    | none => some a) _
  cases r.missing? names with
  | some name => exact .failOpen _ _ _
  | none => exact .pure a _

/-- What is not the bracket that closes an array is refused in its place. -/
theorem outcome_closeSquare {x : Char} (hx : x ≠ ']') {blanks rest : List Char}
    (hblanks : Blanks blanks) (hblank : x ∉ [' ', '\t', '\n', '\r']) :
    Outcome closeSquare (blanks ++ x :: rest) none more := by
  refine .afterBlanks hblanks (not_blank_cons hblank) (.of_never ?_ _ _)
  rw [List.cons_append, List.head?_cons]
  split
  · next hnext => exact absurd (Option.some.inj hnext) hx
  · refine .bind fun _ => .bind fun next => ?_
    split
    · exact .failAtNext _ _
    · exact .failAtNext _ _
  · exact .failAtNext _ _
  · next hnext => cases hnext

/-- Another item does not close an array. -/
theorem outcome_closeSquare_item {first : Bool} {lead : List Char} (hlead : Lead first lead)
    {t : Written} {text : List Char} (htext : t.Spells text) (rest : List Char) :
    Outcome closeSquare (lead ++ (text ++ rest)) none more := by
  obtain ⟨x, tail, rfl, hx⟩ := htext.exists_cons
  cases hlead with
  | first hblanks =>
    refine outcome_closeSquare ?_ hblanks fun hblank => ?_
    · rintro rfl
      exact hx (by decide)
    · exact hx (List.mem_append_left [',', ':', ']', '\x7d'] hblank)
  | next hbefore hafter =>
    rw [List.append_assoc, List.cons_append]
    exact outcome_closeSquare (by decide) hbefore (by decide)

/-- Items are read one for each field, up to the bracket that closes. -/
theorem outcome_readFields (r : Record α) {fs : List (Field α)}
    (hfields : ∀ f ∈ fs, f.decoder.Steady need) (hdepth : need ≤ depth)
    {items : List (Written × List Char)} (hitems : ∀ i ∈ items, i.1.Spells i.2) {index : Nat}
    {first : Bool} (hfirst : decide (index = 0) = first) {text : List Char}
    (hjoined : Joined first (items.map Prod.snd) text) (a : α) :
    Outcome (do let b ← r.readFields depth index fs a; closeSquare; return b) (text ++ [']'])
      (inOrder fs (items.map Prod.fst) a) more := by
  induction fs generalizing items index first text a with
  | nil =>
    refine .bind_reads (s := []) (.pure a _) ?_
    cases items with
    | nil =>
      cases hjoined with | nil hblanks =>
      have hclose : Reads closeSquare (text ++ [']']) () more :=
        .afterBlanks hblanks (not_blank_cons (by decide)) (.advance ']' more)
      exact hclose.bind_nil (.pure a more)
    | cons i items =>
      cases hjoined with | @cons _ lead _ rest _ hlead hrest =>
      refine .bind_stop ?_
      show Outcome _ (lead ++ (i.2 ++ rest) ++ [']']) none more
      rw [List.append_assoc, List.append_assoc]
      exact outcome_closeSquare_item hlead (hitems i List.mem_cons_self) _
  | cons f fs ih =>
    obtain ⟨hf, hfs⟩ := List.forall_mem_cons.mp hfields
    have hindex : decide (index + 1 = 0) = false := rfl
    rw [readFields, hfirst, bind_bind]
    cases items with
    | nil =>
      cases hjoined with | nil hblanks =>
      have hnone : Reads (anotherItem first) text false ([']'] ++ more) :=
        reads_anotherItem_false hblanks first more
      refine .bind_reads hnone ?_
      have hrest := ih hfs (List.forall_mem_nil _) hindex (.nil blanks_nil) a
      simp only [Bool.false_eq_true, if_false, List.map_nil, inOrder]
      split
      · exact .bind_stop (.failOpen _ _ _)
      · exact hrest
    | cons i items =>
      cases hjoined with | @cons _ lead _ rest _ hlead hrest =>
      obtain ⟨hi, hitems⟩ := List.forall_mem_cons.mp hitems
      have hends : Ends (rest ++ [']'] ++ more) := by
        rw [List.append_assoc]
        exact ends_joined hrest (by decide) more
      have hread : Outcome (f.decoder.read depth) i.2 (f.decoder.seen i.1)
          (rest ++ [']'] ++ more) :=
        hf.yields i.1 depth hdepth i.2 hi [] blanks_nil _ hends
      have hanother : Reads (anotherItem first) lead true (i.2 ++ (rest ++ [']']) ++ more) := by
        rw [List.append_assoc]
        exact reads_anotherItem_lead hlead hi _
      have hnext : ∀ set : α → α, Outcome
          (do let b ← r.readFields depth (index + 1) fs (set a); closeSquare; return b)
          (rest ++ [']']) (inOrder fs (items.map Prod.fst) (set a)) more :=
        fun set => ih hfs hitems hindex hrest (set a)
      show Outcome _ (lead ++ (i.2 ++ rest) ++ [']']) _ more
      rw [List.append_assoc, List.append_assoc, List.map_cons, inOrder]
      refine .bind_reads hanother ?_
      rw [if_pos rfl, bind_bind]
      exact .bind hread fun set _ => hnext set

end Record

namespace Decoder

variable {α : Type} {r : Record α} {need : Nat}

/-- An object is the record that its members make. -/
theorem yields_object (hr : r.Steady need) (ms : List (List Char × Written)) :
    (record r).Yields (need + 1) (.object ms) ((ms.foldlM r.step (r.blank, [])).bind r.finish) := by
  intro depth hdepth text htext blanks hblanks more hmore
  obtain ⟨depth, rfl⟩ : ∃ k, depth = k + 1 := ⟨depth - 1, by omega⟩
  cases htext with | @object members text hmembers hformed hjoined =>
  refine .afterBlanks hblanks (not_blank_cons (by decide)) ?_
  exact outcome_inCurly (Record.outcome_readObject hr (Nat.le_of_succ_le_succ hdepth) hmembers
    hformed hjoined)

/-- An array is the record that its items make, one for each field. -/
theorem yields_fields (hr : r.Steady need) (ts : List Written) :
    (record r).Yields (need + 1) (.array ts) (Record.inOrder r.fields ts r.blank) := by
  intro depth hdepth text htext blanks hblanks more hmore
  obtain ⟨depth, rfl⟩ : ∃ k, depth = k + 1 := ⟨depth - 1, by omega⟩
  cases htext with | @array items text hitems hjoined =>
  refine .afterBlanks hblanks (not_blank_cons (by decide)) ?_
  simp only [List.cons_append, List.head?_cons, hr.other, Option.isSome_none, Bool.false_eq_true,
    if_false]
  exact .advance_bind (.settling (Record.outcome_readFields r hr.fields
    (Nat.le_of_succ_le_succ hdepth) hitems (decide_eq_true (Eq.refl 0)) hjoined r.blank))

/-- What is neither an object nor an array is no record. -/
theorem yields_record_none (r : Record α) (need : Nat) {t : Written}
    (hobject : ∀ ms, t ≠ .object ms) (harray : ∀ ts, t ≠ .array ts) : (record r).Yields need t none := by
  intro depth _ text htext blanks hblanks more _
  refine outcome_wrongKind r.wanted htext (fun x hx => ?_) hblanks
  split
  · next hnext => cases hnext
  · next hnext =>
    obtain rfl := Option.some.inj hnext
    obtain ⟨ms, rfl⟩ := Written.begins_curly.mp hx
    exact absurd rfl (hobject ms)
  · next hnext =>
    obtain rfl := Option.some.inj hnext
    obtain ⟨ts, rfl⟩ := Written.begins_square.mp hx
    exact absurd rfl (harray ts)
  · rfl

theorem steady_record (hr : r.Steady need) : (record r).Steady (need + 1) := by
  refine .of_yields (finds_record hr.other fun f hf => (hr.fields f hf).finds) hr.depth fun t => ?_
  cases t with
  | object ms => exact ⟨_, yields_object hr ms⟩
  | array ts => exact ⟨_, yields_fields hr ts⟩
  | _ => exact ⟨none, yields_record_none r _ (fun _ h => by cases h) fun _ h => by cases h⟩

theorem seen_object (hr : r.Steady need) {ms : List (List Char × Written)}
    (hms : (Written.object ms).Sound) :
    (record r).seen (.object ms) = (ms.foldlM r.step (r.blank, [])).bind r.finish :=
  seen_eq (yields_object hr ms) hr.depth hms

theorem seen_fields (hr : r.Steady need) {ts : List Written} (hts : (Written.array ts).Sound) :
    (record r).seen (.array ts) = Record.inOrder r.fields ts r.blank :=
  seen_eq (yields_fields hr ts) hr.depth hts

theorem seen_record_null (r : Record α) : (record r).seen .null = none :=
  seen_eq (yields_record_none r 0 (fun _ h => by cases h) fun _ h => by cases h) (Nat.zero_le _)
    sound_null

end Decoder

end Pipewright.Json
