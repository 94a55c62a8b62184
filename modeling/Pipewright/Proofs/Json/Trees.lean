import Mathlib.Data.List.Forall2
import Pipewright.Proofs.Json.Found
import Pipewright.Proofs.Json.Shapes

/-!
# Decoders see trees

What a decoder makes of a text depends on the tree of the text alone: not on its blanks, and not on
what stands around it.  So a decoder sees a tree for a value, or for none.  What it sees is told by
what the decoders of its parts see of the parts of the tree.

* `Decoder.Yields`, `Decoder.seen`: what comes of all texts of a tree.
* `Decoder.Steady`: the texts of a tree are all read alike.
* `Decoder.yields_textCalled`, `Decoder.yields_count`: scalars.
* `Decoder.Steady.map`, `Decoder.Steady.optional`, `Decoder.Steady.list`: derived shapes.
-/

namespace Pipewright.Json

open Reader

namespace Decoder

variable {α β : Type} {d : Decoder α} {need : Nat} {t : Written} {o : Option α}

/-- Whenever at least `need` brackets may be open, every text of the tree has the outcome, perhaps
behind blanks. -/
def Yields (d : Decoder α) (need : Nat) (t : Written) (o : Option α) : Prop :=
  ∀ depth, need ≤ depth → ∀ text, t.Spells text → ∀ blanks, Blanks blanks → ∀ more, Ends more →
    Outcome (d.read depth) (blanks ++ text) o more

open Classical in
/-- What the decoder sees in the tree: what it makes of any of its texts. -/
noncomputable def seen (d : Decoder α) (t : Written) : Option α :=
  if h : t.Sound then alone (d.read maxDepth) h.choose else none

/-- Nothing but the texts of trees is read, and those of one tree are all read alike. -/
structure Steady (d : Decoder α) (need : Nat) : Prop where
  finds : d.Finds
  depth : need ≤ maxDepth
  yields : ∀ t, d.Yields need t (d.seen t)

theorem seen_eq (h : d.Yields need t o) (hneed : need ≤ maxDepth) (ht : t.Sound) :
    d.seen t = o := by
  rw [seen, dif_pos ht]
  exact alone_eq (h maxDepth hneed _ ht.choose_spec [] blanks_nil [] ends_nil)

/-- A decoder is steady when every tree has one outcome. -/
theorem Steady.of_yields (hfinds : d.Finds) (hneed : need ≤ maxDepth)
    (h : ∀ t, ∃ o, d.Yields need t o) : d.Steady need := by
  refine ⟨hfinds, hneed, fun t => ?_⟩
  obtain ⟨o, ho⟩ := h t
  by_cases ht : t.Sound
  · rw [seen_eq ho hneed ht]
    exact ho
  · exact fun _ _ text htext => (ht ⟨text, htext⟩).elim

/-- A whole text is read for what is seen in its tree. -/
theorem Steady.parse_eq_ok_iff (hd : d.Steady need) {source : String} (ht : t.IsOf source) {a : α} :
    d.parse source = .ok a ↔ d.seen t = some a := by
  obtain ⟨before, text, after, hsource, hbefore, htext, hafter⟩ := ht
  have hend : Reads endOfText after () [] :=
    .afterBlanks_nil hafter (fun _ hy => by cases hy) (.pure () [])
  have hmore : Ends (after ++ []) := ends_nil.behind hafter
  have hread := hd.yields t maxDepth hd.depth text htext before hbefore (after ++ []) hmore
  have hwhole : Outcome (do let a ← d.read maxDepth; endOfText; return a)
      (before ++ text ++ after) ((d.seen t).bind some) [] :=
    .bind hread fun a _ => .bind_nil (o := some ()) hend fun _ _ => .pure a []
  rw [Option.bind_fun_some, List.append_assoc, ← hsource] at hwhole
  exact run_eq_ok_iff hwhole

/-- A reader that looks at the next character looks at the one that starts the tree. -/
theorem outcome_at {f : Option Char → Reader α} {text blanks more : List Char} (h : t.Spells text)
    (hf : ∀ x rest, text = x :: rest → t.Begins x → Outcome (f (some x)) text o more)
    (hblanks : Blanks blanks) : Outcome (peekAfterBlanks? >>= f) (blanks ++ text) o more := by
  obtain ⟨x, rest, rfl, hx⟩ := h.begins
  refine .afterBlanks hblanks (fun y hy hblank => ?_) (hf x rest rfl hx)
  obtain rfl : x = y := Option.some.inj hy
  exact hx.notMem (List.mem_append_left [',', ':', ']', '\x7d'] hblank)

/-- What is no value of the wanted kind is refused. -/
theorem outcome_wrongKind {f : Option Char → Reader α} (wanted : String)
    {text blanks more : List Char} (h : t.Spells text)
    (hf : ∀ x, t.Begins x → f (some x) = wrongKind wanted) (hblanks : Blanks blanks) :
    Outcome (peekAfterBlanks? >>= f) (blanks ++ text) none more := by
  refine outcome_at h (fun x rest _ hx => ?_) hblanks
  rw [hf x hx]
  exact .of_never (gives_wrongKind _ _) _ _

/-! ## Scalars -/

end Decoder

namespace Written

/-- The text that a string is. -/
def text? : Written → Option String
  | .string cs => heard cs
  | _ => none

/-- The number that a number is. -/
def number? : Written → Option Number
  | .number cs => numeral cs
  | _ => none

/-- The value that a scalar is. -/
def scalar? : Written → Option Value
  | .null => some .null
  | .bool b => some (.bool b)
  | .number cs => (numeral cs).map .number
  | .string cs => (heard cs).map .string
  | _ => none

end Written

namespace Decoder

variable {α β : Type} {d : Decoder α} {need : Nat} {t : Written} {o : Option α}

theorem yields_textCalled (wanted : String) (t : Written) :
    (textCalled wanted).Yields 0 t t.text? := by
  intro depth _ text h blanks hblanks more hmore
  cases t with
  | string cs =>
    cases h with | string hcs =>
    refine .afterBlanks hblanks (not_blank_cons (by decide)) (.advance_bind ?_)
    exact outcome_readString hcs more
  | _ =>
    refine outcome_wrongKind wanted h (fun x hx => ?_) hblanks
    split
    · next hnext => cases hnext
    · next hnext =>
      obtain rfl := Option.some.inj hnext
      obtain ⟨cs, ht⟩ := Written.begins_quote.mp hx
      cases ht
    · rfl

theorem steady_textCalled (wanted : String) : (textCalled wanted).Steady 0 :=
  .of_yields (finds_textCalled wanted) (Nat.zero_le _) fun t => ⟨_, yields_textCalled wanted t⟩

/-- A number is read for a natural number, or refused. -/
theorem outcome_readCount (negative : Bool) {cs : List Char} (h : MagnitudeText cs)
    {more : List Char} (hmore : Ends more) : Outcome (readCount negative) cs
      ((alone (readNumber negative) cs).bind fun n => (count? n).toOption) more := by
  refine .bind_nil (outcome_readNumber h hmore) fun n _ => ?_
  cases hcount : count? n with
  | ok m => exact .pure m more
  | error issue => exact .failHere _ _ _

theorem yields_count (t : Written) :
    count.Yields 0 t (t.number?.bind fun n => (count? n).toOption) := by
  intro depth _ text h blanks hblanks more hmore
  cases t with
  | number cs =>
    cases h with | number hcs =>
    cases hcs with
    | negative hcs =>
      refine .afterBlanks hblanks (not_blank_cons (by decide)) (.advance_bind ?_)
      exact outcome_readCount true hcs hmore
    | plain hcs =>
      have hread := outcome_readCount false hcs hmore
      obtain ⟨x, rest, rfl, hx⟩ := hcs.exists_cons
      refine outcome_at (.number (.plain hcs)) (fun y rest' hy _ => ?_) hblanks
      obtain ⟨rfl, rfl⟩ := List.cons.inj hy
      have hminus : x ≠ '-' := by
        rintro rfl
        cases hx
      show Outcome _ _ ((numeral (x :: rest)).bind _) more
      rw [numeral_of_ne hminus]
      split
      · next hnext => cases hnext
      · next hnext => exact absurd (Option.some.inj hnext) hminus
      · next hnext =>
        obtain rfl := Option.some.inj hnext
        rw [digit?_isDigit hx]
        exact hread
  | _ =>
    refine outcome_wrongKind "u64" h (fun x hx => ?_) hblanks
    split
    · next hnext => cases hnext
    · next hnext =>
      obtain rfl := Option.some.inj hnext
      obtain ⟨cs, ht⟩ := Written.begins_minus hx
      cases ht
    · next y _ hnext =>
      obtain rfl : x = y := Option.some.inj hnext
      refine if_neg fun hdigit => ?_
      obtain ⟨cs, ht⟩ := Written.begins_digit (isDigit_of_digit? hdigit) hx
      cases ht

theorem steady_count : count.Steady 0 :=
  .of_yields finds_count (Nat.zero_le _) fun t => ⟨_, yields_count t⟩

/-- A scalar is read for its value. -/
theorem yields_value (ht : Scalar t) : value.Yields 0 t t.scalar? := by
  intro depth _ text h blanks hblanks more hmore
  show Outcome (readValue depth) (blanks ++ text) t.scalar? more
  rw [readValue.eq_def]
  cases h with
  | null =>
    refine .afterBlanks hblanks (not_blank_cons (by decide)) (.advance_bind ?_)
    exact (reads_readWord _ more).bind_nil (.pure Value.null more)
  | truth =>
    refine .afterBlanks hblanks (not_blank_cons (by decide)) (.advance_bind ?_)
    exact (reads_readWord _ more).bind_nil (.pure (Value.bool true) more)
  | falsehood =>
    refine .afterBlanks hblanks (not_blank_cons (by decide)) (.advance_bind ?_)
    exact (reads_readWord _ more).bind_nil (.pure (Value.bool false) more)
  | string h =>
    refine .afterBlanks hblanks (not_blank_cons (by decide)) (.advance_bind ?_)
    exact .map (outcome_readString h more)
  | number h =>
    cases h with
    | negative h =>
      refine .afterBlanks hblanks (not_blank_cons (by decide)) (.advance_bind ?_)
      exact .map (outcome_readNumber h hmore)
    | plain h =>
      have hread : Outcome (readNumber false) _ _ more := outcome_readNumber h hmore
      obtain ⟨x, rest, rfl, hx⟩ := h.exists_cons
      have hne : ∀ y : Char, y.isDigit = false → x ≠ y := by
        rintro y hy rfl
        rw [hx] at hy
        cases hy
      refine outcome_at (.number (.plain h)) (fun y rest' hy _ => ?_) hblanks
      obtain ⟨rfl, rfl⟩ := List.cons.inj hy
      show Outcome _ _ ((numeral (x :: rest)).map _) more
      rw [numeral_of_ne (hne '-' rfl)]
      split <;> rename_i hnext <;> try exact absurd (Option.some.inj hnext) (hne _ rfl)
      · cases hnext
      · obtain rfl := Option.some.inj hnext
        rw [digit?_isDigit hx]
        exact .map hread
  | array => cases ht
  | object => cases ht

/-! ## Absent values -/

theorem Yields.map (h : d.Yields need t o) (f : α → β) : (d.map f).Yields need t (o.map f) :=
  fun depth hdepth text htext blanks hblanks more hmore =>
    .map (h depth hdepth text htext blanks hblanks more hmore)

theorem Steady.map (h : d.Steady need) (f : α → β) : (d.map f).Steady need :=
  .of_yields (h.finds.map f) h.depth fun t => ⟨_, (h.yields t).map f⟩

theorem seen_map (d : Decoder α) (f : α → β) (t : Written) :
    (d.map f).seen t = (d.seen t).map f := by
  by_cases ht : t.Sound
  · rw [seen, dif_pos ht, seen, dif_pos ht]
    exact alone_map _ f _
  · rw [seen, dif_neg ht, seen, dif_neg ht]
    rfl

theorem sound_null : Written.null.Sound := ⟨_, .null⟩

theorem yields_optional_null (d : Decoder α) (need : Nat) :
    d.optional.Yields need .null (some none) := by
  intro depth _ text htext blanks hblanks more _
  cases htext
  refine .afterBlanks hblanks (not_blank_cons (by decide)) (.advance_bind ?_)
  exact (reads_readWord _ more).bind_nil (.pure none more)

theorem Yields.optional (h : d.Yields need t o) (ht : t ≠ .null) :
    d.optional.Yields need t (o.map some) := by
  intro depth hdepth text htext blanks hblanks more hmore
  have hread := h depth hdepth text htext [] blanks_nil more hmore
  refine outcome_at htext (fun x rest _ hx => ?_) hblanks
  split
  · next hnext =>
    obtain rfl := Option.some.inj hnext
    exact absurd (Written.begins_n.mp hx) ht
  · exact .map hread

theorem Steady.optional (h : d.Steady need) : d.optional.Steady need := by
  refine .of_yields h.finds.optional h.depth fun t => ?_
  by_cases ht : t = .null
  · subst ht
    exact ⟨_, yields_optional_null d need⟩
  · exact ⟨_, (h.yields t).optional ht⟩

theorem Steady.mono {enough : Nat} (h : d.Steady need) (hneed : need ≤ enough)
    (henough : enough ≤ maxDepth) : d.Steady enough :=
  ⟨h.finds, henough, fun t depth hdepth => h.yields t depth (Nat.le_trans hneed hdepth)⟩

theorem Steady.orBlank [Inhabited α] (h : d.Steady need) : d.orBlank.Steady need :=
  h.optional.map _

theorem seen_optional_null (d : Decoder α) : d.optional.seen .null = some none :=
  seen_eq (yields_optional_null d 0) (Nat.zero_le _) sound_null

/-- What is not null is seen as without the null. -/
theorem Steady.seen_optional (h : d.Steady need) (ht : t ≠ .null) :
    d.optional.seen t = (d.seen t).map some := by
  by_cases hsound : t.Sound
  · exact seen_eq ((h.yields t).optional ht) h.depth hsound
  · rw [seen, dif_neg hsound, seen, dif_neg hsound]
    rfl

theorem seen_orBlank_null [Inhabited α] (d : Decoder α) : d.orBlank.seen .null = some default := by
  rw [Decoder.orBlank, seen_map, seen_optional_null]
  rfl

theorem Steady.seen_orBlank [Inhabited α] (h : d.Steady need) (ht : t ≠ .null) :
    d.orBlank.seen t = d.seen t := by
  rw [Decoder.orBlank, seen_map, h.seen_optional ht, Option.map_map]
  cases d.seen t <;> rfl

end Decoder

/-! ## Arrays -/

namespace Reader

variable {α : Type} {more : List Char}

/-- Another item follows behind what stands before it. -/
theorem reads_anotherItem_lead {first : Bool} {lead : List Char} (hlead : Lead first lead)
    {t : Written} {text : List Char} (htext : t.Spells text) (rest : List Char) :
    Reads (anotherItem first) lead true (text ++ rest) := by
  obtain ⟨x, tail, rfl, hx⟩ := htext.exists_cons
  have hblank : ∀ y ∈ (x :: tail ++ rest).head?, y ∉ [' ', '\t', '\n', '\r'] := by
    intro y hy hblank
    obtain rfl : x = y := Option.some.inj hy
    exact hx (List.mem_append_left [',', ':', ']', '\x7d'] hblank)
  have hclose : x ≠ ']' := by
    rintro rfl
    exact hx (by decide)
  cases hlead with
  | first hblanks =>
    refine .afterBlanks_nil hblanks hblank ?_
    simp only [if_true, List.cons_append, List.head?_cons]
    exact .pure _ _
  | @next before after hbefore hafter =>
    refine .afterBlanks hbefore (not_blank_cons (by decide)) ?_
    simp only [Bool.false_eq_true, if_false, List.cons_append, List.head?_cons]
    refine .advance_bind (.afterBlanks_nil hafter hblank ?_)
    simp only [List.head?_cons]
    exact .pure _ _

/-- The items of an array are read one after the other. -/
theorem outcome_readItems {item : Reader α} {f : Written → Option α}
    {items : List (Written × List Char)} (hitems : ∀ i ∈ items, i.1.Spells i.2)
    (hread : ∀ i ∈ items, ∀ rest, Ends rest → Outcome item i.2 (f i.1) rest) {text : List Char}
    (hjoined : Joined true (items.map Prod.snd) text) :
    Outcome (readItems item) text ((items.map Prod.fst).mapM f) (']' :: more) := by
  rw [readItems]
  refine Repeats.outcome ?_
  suffices hall : ∀ (soFar : List α) (text : List Char),
      Joined soFar.isEmpty (items.map Prod.snd) text → Repeats _ soFar text
        (((items.map Prod.fst).mapM f).map (soFar.reverse ++ ·)) (']' :: more) by
    have hrounds := hall [] text hjoined
    simp only [List.reverse_nil, List.nil_append, Option.map_id'] at hrounds
    exact hrounds
  clear hjoined text
  intro soFar text hjoined
  induction items generalizing soFar text with
  | nil =>
    cases hjoined with | nil hblanks =>
    refine .last ((reads_anotherItem_false hblanks _ _).bind_nil ?_)
    show Reads _ [] (Sum.inr (soFar.reverse ++ [])) _
    rw [List.append_nil]
    exact .pure _ _
  | cons i items ih =>
    obtain ⟨hi, hitems⟩ := List.forall_mem_cons.mp hitems
    obtain ⟨hiread, hread⟩ := List.forall_mem_cons.mp hread
    cases hjoined with | @cons _ lead _ rest _ hlead hrest =>
    have hends : Ends (rest ++ ']' :: more) := ends_joined hrest (by decide) more
    have hnext : (((i :: items).map Prod.fst).mapM f).map (soFar.reverse ++ ·) =
        ((f i.1).map (· :: soFar)).bind fun soFar' =>
          ((items.map Prod.fst).mapM f).map (soFar'.reverse ++ ·) := by
      rw [List.map_cons, List.mapM_cons]
      cases f i.1 with
      | none => rfl
      | some a =>
        cases (items.map Prod.fst).mapM f <;> simp
    rw [hnext, ← List.append_assoc]
    refine .bind ?_ ?_ fun soFar' hsoFar' => ?_
    · rw [Option.map_map]
      exact .bind_reads (reads_anotherItem_lead hlead hi _) (.map (hiread _ hends))
    · obtain ⟨x, tail, hx, -⟩ := hi.exists_cons
      rw [hx]
      exact List.append_ne_nil_of_right_ne_nil _ (List.cons_ne_nil _ _)
    · obtain ⟨a, -, rfl⟩ := Option.map_eq_some_iff.mp hsoFar'
      exact ih hitems hread (a :: soFar) rest hrest

/-- An array is read between its brackets. -/
theorem outcome_inSquare {body : Nat → Reader α} {depth : Nat} {text : List Char} {o : Option α}
    (h : Outcome (body depth) text o (']' :: more)) :
    Outcome (inSquare (depth + 1) body) ('[' :: (text ++ [']'])) o more := by
  have hclosed : Outcome (do let a ← body depth; closeSquare; return a) (text ++ [']'])
      (o.bind some) more :=
    .bind h fun a _ => .bind_reads (s := [']']) (reads_closeSquare more) (.pure a more)
  rw [Option.bind_fun_some] at hclosed
  exact .advance_bind (.settling hclosed)

/-- An object is read between its brackets. -/
theorem outcome_inCurly {body : Nat → Reader α} {depth : Nat} {text : List Char} {o : Option α}
    (h : Outcome (body depth) text o ('\x7d' :: more)) :
    Outcome (inCurly (depth + 1) body) ('\x7b' :: (text ++ ['\x7d'])) o more := by
  have hclosed : Outcome (do let a ← body depth; closeCurly; return a) (text ++ ['\x7d'])
      (o.bind some) more :=
    .bind h fun a _ => .bind_reads (s := ['\x7d']) (reads_closeCurly more) (.pure a more)
  rw [Option.bind_fun_some] at hclosed
  exact .advance_bind (.settling hclosed)

end Reader

namespace Decoder

variable {α : Type} {d : Decoder α} {need : Nat} {t : Written}

/-- An array is a list of what its items are. -/
theorem Steady.yields_list (h : d.Steady need) (ts : List Written) :
    d.list.Yields (need + 1) (.array ts) (ts.mapM d.seen) := by
  intro depth hdepth text htext blanks hblanks more hmore
  obtain ⟨depth, rfl⟩ : ∃ k, depth = k + 1 := ⟨depth - 1, by omega⟩
  cases htext with | @array items text hitems hjoined =>
  refine .afterBlanks hblanks (not_blank_cons (by decide)) ?_
  refine outcome_inSquare (outcome_readItems hitems (fun i hi rest hrest => ?_) hjoined)
  exact h.yields i.1 depth (Nat.le_of_succ_le_succ hdepth) i.2 (hitems i hi) [] blanks_nil rest
    hrest

/-- What is no array is no list. -/
theorem yields_list_none (d : Decoder α) (need : Nat) (ht : ∀ ts, t ≠ .array ts) :
    d.list.Yields need t none := by
  intro depth _ text htext blanks hblanks more _
  refine outcome_wrongKind "a sequence" htext (fun x hx => ?_) hblanks
  split
  · next hnext => cases hnext
  · next hnext =>
    obtain rfl := Option.some.inj hnext
    obtain ⟨ts, rfl⟩ := Written.begins_square.mp hx
    exact absurd rfl (ht ts)
  · rfl

theorem Steady.list (h : d.Steady need) (hneed : need + 1 ≤ maxDepth) :
    d.list.Steady (need + 1) := by
  refine .of_yields h.finds.list hneed fun t => ?_
  by_cases ht : ∃ ts, t = .array ts
  · obtain ⟨ts, rfl⟩ := ht
    exact ⟨_, h.yields_list ts⟩
  · exact ⟨none, yields_list_none d _ fun ts hts => ht ⟨ts, hts⟩⟩

theorem Steady.seen_list (h : d.Steady need) (hneed : need + 1 ≤ maxDepth) {ts : List Written}
    (hts : (Written.array ts).Sound) : d.list.seen (.array ts) = ts.mapM d.seen :=
  seen_eq (h.yields_list ts) hneed hts

end Decoder

end Pipewright.Json
