import Pipewright.Proofs.Json.Leads
import Pipewright.Proofs.Json.Skipping
import Pipewright.Proofs.Lists

/-!
# Values that have been stepped over

A value that has been stepped over is in the grammar, to whatever depth its brackets are nested.
The reader keeps no more than the brackets that are open; what it still has to read is what closes
them.

* `Reader.Stands`: a value stands at the start of a text.
* `Reader.Element`, `Reader.exists_spells_bracketed`: what stands between brackets makes a value.
* `Reader.Closes`, `Reader.closes_entered`: what closes the brackets that are open.
* `Reader.leads_skipValue`: a value is stepped over.
-/

namespace Pipewright.Json

namespace Reader

variable {α σ : Type} {text rest : List Char}

/-- A value stands at the start of the text, perhaps behind blanks, and then the rest. -/
def Stands (text rest : List Char) : Prop :=
  ∃ (t : Written) (blanks s : List Char), Blanks blanks ∧ t.Spells s ∧ text = blanks ++ (s ++ rest)

theorem Stands.behind {blanks : List Char} (hblanks : Blanks blanks) (h : Stands text rest) :
    Stands (blanks ++ text) rest := by
  obtain ⟨t, more, s, hmore, hs, rfl⟩ := h
  exact ⟨t, blanks ++ more, s, List.forall_mem_append.mpr ⟨hblanks, hmore⟩, hs,
    (List.append_assoc _ _ _).symm⟩

/-! ## Brackets -/

/-- An item or a member: a value, in curly brackets with its key. -/
def Element (b : Bracket) (e : List Char) : Prop :=
  ∃ (t : Written) (key after s : List Char), KeyText b key after ∧ t.Spells s ∧
    e = key ++ (after ++ s)

/-- Elements between brackets make a value. -/
theorem exists_spells_bracketed {b : Bracket} {elements : List (List Char)} {s : List Char}
    (hjoined : Joined true elements s) (helements : ∀ e ∈ elements, Element b e) :
    ∃ t : Written, t.Spells (b.opening :: (s ++ [b.closing])) := by
  cases b with
  | square =>
    have hpairs : ∀ e ∈ elements, ∃ i : Written × List Char, i.1.Spells i.2 ∧ i.2 = e := by
      intro e he
      obtain ⟨t, key, after, s, hkey, hs, rfl⟩ := helements e he
      cases hkey
      exact ⟨(t, s), hs, rfl⟩
    obtain ⟨items, rfl, hitems⟩ := exists_map_eq hpairs
    exact ⟨_, .array hitems hjoined⟩
  | curly =>
    have hspelled : ∀ e ∈ elements,
        ∃ m : MemberSpelling, (m.value.Spells m.text ∧ m.Formed) ∧ m.spelling = e := by
      intro e he
      obtain ⟨t, _, after, s, hkey, hs, rfl⟩ := helements e he
      cases hkey with | @curly key blanks _ hkey hblanks hafter =>
      exact ⟨⟨key, t, blanks, after, s⟩, ⟨hs, hkey, hblanks, hafter⟩, MemberSpelling.spelling_eq _⟩
    obtain ⟨members, rfl, hmembers⟩ := exists_map_eq hspelled
    exact ⟨_, .object (fun m hm => (hmembers m hm).1) (fun m hm => (hmembers m hm).2) hjoined⟩

/-! ## Values that are stepped over -/

/-- The start of a value: all of it, or the bracket that opens it. -/
def Starts : Option Bracket → List Char → Prop
  | none, s => ∃ t : Written, t.Spells s
  | some b, s => s = [b.opening]

theorem leads_skipStart (text : List Char) : Leads skipStart text fun o rest =>
    ∃ blanks start, Blanks blanks ∧ Starts o start ∧ text = blanks ++ (start ++ rest) := by
  refine .afterBlanks fun blanks rest hblanks htext => ?_
  subst htext
  have hword : ∀ {x : Char} {word more : List Char} {t : Written}, t.Spells (x :: word) →
      rest = x :: more → Leads (do readWord word; return none) more fun o last =>
        ∃ before start, Blanks before ∧ Starts o start ∧
          blanks ++ rest = before ++ (start ++ last) := by
    rintro x word more t ht rfl
    refine .bind (leads_readWord word more) fun _ last h => .pure ?_
    exact ⟨blanks, x :: word, hblanks, ⟨t, ht⟩, by rw [h]; rfl⟩
  split
  · exact .failAtNext _
  · next hnext =>
    obtain ⟨more, rfl⟩ := List.head?_eq_some_iff.mp hnext
    exact .advance_bind (hword .null rfl)
  · next hnext =>
    obtain ⟨more, rfl⟩ := List.head?_eq_some_iff.mp hnext
    exact .advance_bind (hword .truth rfl)
  · next hnext =>
    obtain ⟨more, rfl⟩ := List.head?_eq_some_iff.mp hnext
    exact .advance_bind (hword .falsehood rfl)
  · next hnext =>
    obtain ⟨more, rfl⟩ := List.head?_eq_some_iff.mp hnext
    refine .advance_bind (.bind (leads_skipNumber more) fun _ last h => .pure ?_)
    obtain ⟨cs, hcs, rfl⟩ := h
    exact ⟨blanks, '-' :: cs, hblanks, ⟨_, .number (.negative hcs)⟩, rfl⟩
  · next hnext =>
    obtain ⟨more, rfl⟩ := List.head?_eq_some_iff.mp hnext
    refine .advance_bind (.bind (leads_skipString more) fun _ last h => .pure ?_)
    obtain ⟨cs, hcs, rfl⟩ := h
    exact ⟨blanks, '"' :: (cs ++ ['"']), hblanks, ⟨_, .string hcs⟩, by simp⟩
  · next hnext =>
    obtain ⟨more, rfl⟩ := List.head?_eq_some_iff.mp hnext
    exact .advance_bind (.pure ⟨blanks, ['['], hblanks, rfl, rfl⟩)
  · next hnext =>
    obtain ⟨more, rfl⟩ := List.head?_eq_some_iff.mp hnext
    exact .advance_bind (.pure ⟨blanks, ['\x7b'], hblanks, rfl, rfl⟩)
  · next x _ _ _ _ _ _ _ hnext =>
    obtain ⟨more, rfl⟩ := List.head?_eq_some_iff.mp hnext
    split
    · refine .bind (leads_skipNumber _) fun _ last h => .pure ?_
      obtain ⟨cs, hcs, h⟩ := h
      exact ⟨blanks, cs, hblanks, ⟨_, .number (.plain hcs)⟩, by rw [h]⟩
    · exact .failAtNext _

theorem leads_skipKey (text : List Char) : Leads skipKey text fun _ rest =>
    ∃ before key blanks, Blanks before ∧ StringText key ∧ Blanks blanks ∧
      text = before ++ ('"' :: (key ++ '"' :: (blanks ++ [':'])) ++ rest) := by
  rw [skipKey]
  extract_lets key
  have hkey : ∀ text, Leads (key ()) text fun _ rest => ∃ key blanks, StringText key ∧
      Blanks blanks ∧ text = key ++ '"' :: (blanks ++ ':' :: rest) := by
    intro text
    refine .bind (leads_skipString text) fun _ more hmore => ?_
    obtain ⟨cs, hcs, rfl⟩ := hmore
    refine .afterBlanks fun blanks rest hblanks hrest => ?_
    subst hrest
    split
    · next hnext =>
      obtain ⟨last, rfl⟩ := List.head?_eq_some_iff.mp hnext
      exact .advance ⟨cs, blanks, hcs, hblanks, rfl⟩
    · exact .failAtNext _
    · exact .failAtNext _
  refine .afterBlanks fun before rest hbefore hrest => ?_
  subst hrest
  split
  · next hnext =>
    obtain ⟨last, rfl⟩ := List.head?_eq_some_iff.mp hnext
    refine .advance_bind ((hkey last).mono fun _ rest h => ?_)
    obtain ⟨key, blanks, hkey, hblanks, rfl⟩ := h
    exact ⟨before, key, blanks, hbefore, hkey, hblanks, by simp⟩
  · exact .bind_stop (.failAtNext _ _)
  · exact .bind_stop (.failAtNext _ _)

/-- The start of an element is stepped over, with its key. -/
theorem leads_skipElement (inner : Bracket) (outer : List Bracket) (text : List Char) :
    Leads (skipElement inner outer) text fun state rest => ∃ before key after o start,
      Blanks before ∧ KeyText inner key after ∧ Starts o start ∧ state = entered inner outer o ∧
      text = before ++ (key ++ (after ++ (start ++ rest))) := by
  have hvalue : ∀ text, Leads (do return entered inner outer (← skipStart)) text
      fun state rest => ∃ blanks o start,
        Blanks blanks ∧ Starts o start ∧ state = entered inner outer o ∧
          text = blanks ++ (start ++ rest) := by
    intro text
    refine .bind (leads_skipStart text) fun o rest h => ?_
    obtain ⟨blanks, start, hblanks, hstart, rfl⟩ := h
    exact .pure ⟨blanks, o, start, hblanks, hstart, rfl, rfl⟩
  cases inner with
  | square =>
    rw [skipElement_square]
    refine (hvalue text).mono fun state rest h => ?_
    obtain ⟨blanks, o, start, hblanks, hstart, hstate, rfl⟩ := h
    exact ⟨blanks, [], [], o, start, hblanks, .square, hstart, hstate, rfl⟩
  | curly =>
    rw [skipElement_curly]
    refine .bind (leads_skipKey text) fun _ more h => ?_
    obtain ⟨before, key, blanks, hbefore, hkey, hblanks, rfl⟩ := h
    refine (hvalue more).mono fun state rest h => ?_
    obtain ⟨after, o, start, hafter, hstart, hstate, rfl⟩ := h
    exact ⟨before, _, after, o, start, hbefore, .curly hkey hblanks hafter, hstart, hstate, rfl⟩

/-- The text goes on with what closes the brackets that are open, and then the rest. -/
inductive Closes : List Bracket → Bool → List Char → List Char → Prop where
  | done {afterElement : Bool} {rest : List Char} : Closes [] afterElement rest rest
  | close {b : Bracket} {outer : List Bracket} {afterElement : Bool} {blanks text rest : List Char}
      (hblanks : Blanks blanks) (h : Closes outer true text rest) :
      Closes (b :: outer) afterElement (blanks ++ b.closing :: text) rest
  | element {b : Bracket} {outer : List Bracket} {afterElement : Bool}
      {lead e text rest : List Char} (hlead : Lead (!afterElement) lead) (he : Element b e)
      (h : Closes (b :: outer) true text rest) :
      Closes (b :: outer) afterElement (lead ++ (e ++ text)) rest

/-- What closes the innermost bracket comes first. -/
theorem Closes.exists_joined {b : Bracket} {outer : List Bracket} {afterElement : Bool}
    (h : Closes (b :: outer) afterElement text rest) :
    ∃ elements s more, Joined (!afterElement) elements s ∧ (∀ e ∈ elements, Element b e) ∧
      text = s ++ b.closing :: more ∧ Closes outer true more rest := by
  generalize hstack : b :: outer = stack at h
  induction h with
  | done => cases hstack
  | close hblanks h =>
    cases hstack
    exact ⟨[], _, _, .nil hblanks, List.forall_mem_nil _, rfl, h⟩
  | element hlead he _ ih =>
    obtain ⟨elements, s, more, hjoined, helements, rfl, h⟩ := ih hstack
    cases hstack
    exact ⟨_ :: elements, _, more, .cons hlead hjoined, List.forall_mem_cons.mpr ⟨he, helements⟩,
      by simp, h⟩

/-- What is closed behind the start of an element is closed behind what stands before it. -/
theorem closes_entered {inner : Bracket} {outer : List Bracket} {afterElement : Bool}
    {o : Option Bracket} {lead key after start : List Char} (hlead : Lead (!afterElement) lead)
    (hkey : KeyText inner key after) (hstart : Starts o start)
    (h : Closes (entered inner outer o).1 (entered inner outer o).2 text rest) :
    Closes (inner :: outer) afterElement (lead ++ (key ++ (after ++ (start ++ text)))) rest := by
  have helement : ∀ {s more : List Char} {t : Written}, t.Spells s →
      Closes (inner :: outer) true more rest →
      Closes (inner :: outer) afterElement (lead ++ (key ++ (after ++ (s ++ more)))) rest := by
    intro s more t ht hmore
    have hclosed := Closes.element hlead ⟨t, key, after, s, hkey, ht, rfl⟩ hmore
    simpa using hclosed
  cases o with
  | none =>
    obtain ⟨t, ht⟩ := hstart
    exact helement ht h
  | some b =>
    cases hstart
    obtain ⟨elements, s, more, hjoined, helements, rfl, hmore⟩ := Closes.exists_joined h
    obtain ⟨t, ht⟩ := exists_spells_bracketed hjoined helements
    have hclosed := helement ht hmore
    simpa using hclosed

/-- Each round goes on where those behind it close the brackets. -/
theorem leads_skipRound (state : List Bracket × Bool) (text : List Char) :
    Leads (skipRound state) text
      (Onwards (fun state text _ rest => Closes state.1 state.2 text rest) state text) := by
  obtain ⟨stack, afterElement⟩ := state
  cases stack with
  | nil => exact .pure .done
  | cons inner outer =>
    have helement : ∀ {lead text : List Char}, (∀ before, Blanks before →
          Lead (!afterElement) (lead ++ before)) → Leads (skipElement inner outer) text
        fun next rest => ∀ more, Closes next.1 next.2 rest more →
          Closes (inner :: outer) afterElement (lead ++ text) more := by
      intro lead text hlead
      refine (leads_skipElement inner outer text).mono fun next rest h more hmore => ?_
      obtain ⟨before, key, after, o, start, hbefore, hkey, hstart, rfl, rfl⟩ := h
      have hclosed := closes_entered (hlead before hbefore) hkey hstart hmore
      simpa using hclosed
    refine .afterBlanks fun blanks rest hblanks htext => ?_
    subst htext
    split
    · exact .failAtNext _
    · next x hnext =>
      obtain ⟨more, rfl⟩ := List.head?_eq_some_iff.mp hnext
      split
      · next hcomma =>
        obtain ⟨rfl, rfl⟩ := hcomma
        have hlead : ∀ before, Blanks before → Lead (!true) (blanks ++ [','] ++ before) := by
          intro before hbefore
          have hnext := Lead.next hblanks hbefore
          simpa using hnext
        refine .advance_bind (.bind (helement hlead) fun next rest h => .pure fun _ last hl => ?_)
        have hclosed := h last hl
        simpa using hclosed
      · split
        · next hclosing =>
          subst hclosing
          refine .advance_bind ?_
          split
          · next houter =>
            obtain rfl := List.isEmpty_iff.mp houter
            exact .pure (.close hblanks .done)
          · exact .pure fun _ last hlast => .close hblanks hlast
        · split
          · exact .failAtNext _
          · next hafter =>
            obtain rfl : afterElement = false := Bool.eq_false_iff.mpr hafter
            have hlead : ∀ before, Blanks before → Lead (!false) (blanks ++ before) :=
              fun before hbefore => .first (List.forall_mem_append.mpr ⟨hblanks, hbefore⟩)
            exact .bind (helement hlead) fun next rest h => .pure fun _ last hlast => h last hlast

/-- A value of any depth is stepped over. -/
theorem leads_skipValue (text : List Char) :
    Leads skipValue text fun _ rest => Stands text rest := by
  refine .bind (leads_skipStart text) fun o more h => ?_
  obtain ⟨blanks, start, hblanks, hstart, rfl⟩ := h
  cases o with
  | none =>
    obtain ⟨t, ht⟩ := hstart
    exact .pure ⟨t, blanks, start, hblanks, ht, rfl⟩
  | some b =>
    cases hstart
    have hrounds : Leads (iterate skipRound ([b], false)) more fun _ rest =>
        Closes [b] false more rest :=
      Leads.iterate leads_skipRound ([b], false) more
    refine hrounds.mono fun _ rest h => ?_
    obtain ⟨elements, s, last, hjoined, helements, rfl, hlast⟩ := h.exists_joined
    cases hlast
    obtain ⟨t, ht⟩ := exists_spells_bracketed hjoined helements
    exact ⟨t, blanks, _, hblanks, ht, by simp⟩

end Reader

end Pipewright.Json
