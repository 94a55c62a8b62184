import Pipewright.Proofs.Json.Tokens

/-!
# Values that are stepped over

Every text of a tree is stepped over, however deep the tree is nested, whatever its escapes name and
of whatever size its numbers are.  The brackets that are open are the state of the reader, and an
element between them leaves that state as it was.

* `Reader.skipRound`: a round of the reader.
* `Reader.Passes`, `Reader.passes_of_spells`: an element is passed in rounds.
* `Reader.reads_skipValue`: a whole value.
-/

namespace Pipewright.Json

namespace Reader

/-- Blanks belong to no number. -/
theorem Ends.behind {blanks text : List Char} (h : Ends text) (hblanks : Blanks blanks) :
    Ends (blanks ++ text) := by
  cases blanks with
  | nil => exact h
  | cons x blanks =>
    exact ends_cons (List.mem_append_left [',', ']', '\x7d'] (hblanks x List.mem_cons_self)) _

/-- Behind an element nothing stands that belongs to a number. -/
theorem ends_joined {texts : List (List Char)} {text : List Char} (h : Joined false texts text)
    {x : Char} (hx : x ∈ [']', '\x7d']) (rest : List Char) : Ends (text ++ x :: rest) := by
  have hends : ∀ {y : Char}, y ∈ [',', ']', '\x7d'] → ∀ tail, Ends (y :: tail) :=
    fun hy tail => ends_cons (List.mem_append_right [' ', '\t', '\n', '\r'] hy) tail
  cases h with
  | nil hblanks => exact (hends (List.mem_cons_of_mem _ hx) rest).behind hblanks
  | cons hlead hrest =>
    cases hlead with
    | next hbefore hafter =>
      rw [List.append_assoc, List.append_assoc]
      exact (hends List.mem_cons_self _).behind hbefore

/-! ## Starts -/

/-- The bracket that opens. -/
def Bracket.opening : Bracket → Char
  | .square => '['
  | .curly => '\x7b'

theorem reads_skipStart_opening (b : Bracket) {blanks : List Char} (hblanks : Blanks blanks)
    (more : List Char) : Reads skipStart (blanks ++ [b.opening]) (some b) more := by
  cases b with
  | square =>
    refine .afterBlanks hblanks (not_blank_cons (by decide)) ?_
    exact .advance_bind (.pure _ more)
  | curly =>
    refine .afterBlanks hblanks (not_blank_cons (by decide)) ?_
    exact .advance_bind (.pure _ more)

/-- At a digit a number is stepped over. -/
theorem reads_skipStart_of_digit {x : Char} (hx : x.isDigit = true) {text more blanks : List Char}
    (h : Reads skipNumber (x :: text) () more) (hblanks : Blanks blanks) :
    Reads skipStart (blanks ++ x :: text) none more := by
  have hne : ∀ y : Char, y.isDigit = false → x ≠ y := by
    rintro y hy rfl
    rw [hx] at hy
    cases hy
  have hnone : ∀ y ∈ [' ', '\t', '\n', '\r'], y.isDigit = false := by simp
  refine .afterBlanks hblanks (fun y hy hblank => hne y (hnone y hblank) (Option.some.inj hy)) ?_
  rw [List.cons_append, List.head?_cons]
  split <;> rename_i hnext <;> try exact absurd (Option.some.inj hnext) (hne _ rfl)
  · cases hnext
  · obtain rfl := Option.some.inj hnext
    rw [digit?, if_pos hx]
    exact h.bind_nil (.pure none more)

/-- Scalars are stepped over at once. -/
inductive Scalar : Written → Prop where
  | null : Scalar .null
  | bool (b : Bool) : Scalar (.bool b)
  | number (cs : List Char) : Scalar (.number cs)
  | string (cs : List Char) : Scalar (.string cs)

theorem reads_skipStart {t : Written} (ht : Scalar t) {text blanks more : List Char}
    (h : t.Spells text) (hblanks : Blanks blanks) (hmore : Ends more) :
    Reads skipStart (blanks ++ text) none more := by
  cases h with
  | null =>
    refine .afterBlanks hblanks (not_blank_cons (by decide)) (.advance_bind ?_)
    exact (reads_readWord _ more).bind_nil (.pure _ more)
  | truth =>
    refine .afterBlanks hblanks (not_blank_cons (by decide)) (.advance_bind ?_)
    exact (reads_readWord _ more).bind_nil (.pure _ more)
  | falsehood =>
    refine .afterBlanks hblanks (not_blank_cons (by decide)) (.advance_bind ?_)
    exact (reads_readWord _ more).bind_nil (.pure _ more)
  | string h =>
    refine .afterBlanks hblanks (not_blank_cons (by decide)) (.advance_bind ?_)
    exact (reads_skipString h more).bind_nil (.pure _ more)
  | number h =>
    cases h with
    | negative h =>
      refine .afterBlanks hblanks (not_blank_cons (by decide)) (.advance_bind ?_)
      exact (reads_skipNumber h hmore).bind_nil (.pure _ more)
    | plain h =>
      have hread := reads_skipNumber h hmore
      obtain ⟨x, rest, rfl, hx⟩ := h.exists_cons
      exact reads_skipStart_of_digit hx hread hblanks
  | array => cases ht
  | object => cases ht

/-! ## Rounds -/

/-- A round of the reader that steps over a value. -/
def skipRound (state : List Bracket × Bool) : Reader ((List Bracket × Bool) ⊕ Unit) := do
  match state with
  | ([], _) => return .inr ()
  | (inner :: outer, afterElement) =>
    match ← peekAfterBlanks? with
    | none => failAtNext inner.atEnd
    | some x =>
      if x = ',' ∧ afterElement then
        advance
        return .inl (← skipElement inner outer)
      else if x = inner.closing then
        advance
        if outer.isEmpty then return .inr () else return .inl (outer, true)
      else if afterElement then failAtNext inner.noComma
      else return .inl (← skipElement inner outer)

/-- What stands before the value of an element: nothing for an item, and for a member its key with
the colon, and then blanks. -/
inductive KeyText : Bracket → List Char → List Char → Prop where
  | square : KeyText .square [] []
  | curly {key blanks after : List Char} (hkey : StringText key) (hblanks : Blanks blanks)
      (hafter : Blanks after) : KeyText .curly ('"' :: (key ++ '"' :: (blanks ++ [':']))) after

end Reader

namespace MemberSpelling

/-- The text of a member is that of its value behind its key. -/
theorem spelling_eq (m : MemberSpelling) : m.spelling =
    '"' :: (m.key ++ '"' :: (m.before ++ [':'])) ++ (m.after ++ m.text) := by
  simp [spelling, tail]

theorem Formed.keyText {m : MemberSpelling} (h : m.Formed) :
    Reader.KeyText .curly ('"' :: (m.key ++ '"' :: (m.before ++ [':']))) m.after :=
  .curly h.key h.before h.after

end MemberSpelling

namespace Reader

/-- The state behind the start of an element. -/
def entered (inner : Bracket) (outer : List Bracket) : Option Bracket → List Bracket × Bool
  | some b => (b :: inner :: outer, false)
  | none => (inner :: outer, true)

section Elements

variable {inner : Bracket} {outer : List Bracket} {o : Option Bracket} {more : List Char}

theorem reads_skipKey {key blanks before : List Char} (hkey : StringText key)
    (hblanks : Blanks blanks) (hbefore : Blanks before) :
    Reads skipKey (before ++ '"' :: (key ++ '"' :: (blanks ++ [':']))) () more := by
  refine .afterBlanks hbefore (not_blank_cons (by decide)) (.advance_bind ?_)
  have hsplit : key ++ '"' :: (blanks ++ [':']) = (key ++ ['"']) ++ (blanks ++ [':']) := by simp
  rw [hsplit]
  refine .bind (reads_skipString hkey _) ?_
  exact .afterBlanks hblanks (not_blank_cons (by decide)) (.advance ':' more)

theorem skipElement_square (outer : List Bracket) :
    skipElement .square outer = do return entered .square outer (← skipStart) := by
  rw [skipElement, if_neg (by decide)]
  refine congrArg (skipStart >>= ·) (funext fun o => ?_)
  cases o <;> rfl

theorem skipElement_curly (outer : List Bracket) : skipElement .curly outer = do
    skipKey
    return entered .curly outer (← skipStart) := by
  rw [skipElement, if_pos rfl]
  refine congrArg (skipKey >>= ·) (funext fun _ => congrArg (skipStart >>= ·) (funext fun o => ?_))
  cases o <;> rfl

/-- The start of an element is what its value starts with, behind its key. -/
theorem reads_skipElement {before key after start : List Char} (hbefore : Blanks before)
    (hkey : KeyText inner key after)
    (hstart : ∀ blanks, Blanks blanks → Reads skipStart (blanks ++ start) o more) :
    Reads (skipElement inner outer) (before ++ (key ++ (after ++ start))) (entered inner outer o)
      more := by
  have hvalue : ∀ blanks, Blanks blanks →
      Reads (do return entered inner outer (← skipStart)) (blanks ++ start)
        (entered inner outer o) more :=
    fun blanks hblanks => (hstart blanks hblanks).bind_nil (.pure _ more)
  cases hkey with
  | square =>
    rw [skipElement_square]
    exact hvalue before hbefore
  | curly hkey hblanks hafter =>
    rw [skipElement_curly, ← List.append_assoc]
    exact .bind (reads_skipKey hkey hblanks hbefore) (hvalue after hafter)

/-- A round steps over the start of an element, with what stands before it. -/
theorem reads_skipRound_element {first : Bool} {lead key after start : List Char}
    (hlead : Lead first lead) (hkey : KeyText inner key after)
    (hhead : ∃ x rest, start = x :: rest ∧ x ∉ [' ', '\t', '\n', '\r', ',', ':', ']', '\x7d'])
    (hstart : ∀ blanks, Blanks blanks → Reads skipStart (blanks ++ start) o more) :
    Reads (skipRound (inner :: outer, !first)) (lead ++ (key ++ (after ++ start)))
      (.inl (entered inner outer o)) more := by
  cases hlead with
  | first hblanks =>
    obtain ⟨x, rest, hx, hplain⟩ : ∃ x rest, key ++ (after ++ start) = x :: rest ∧
        x ∉ [' ', '\t', '\n', '\r', ',', ':', ']', '\x7d'] := by
      cases hkey with
      | square => exact hhead
      | curly => exact ⟨'"', _, rfl, by decide⟩
    have helement : Reads (skipElement inner outer) (key ++ (after ++ start))
        (entered inner outer o) more := reads_skipElement blanks_nil hkey hstart
    rw [hx] at helement ⊢
    refine .afterBlanks hblanks (fun y hy hblank => ?_) ?_
    · obtain rfl : x = y := Option.some.inj hy
      exact hplain (List.mem_append_left [',', ':', ']', '\x7d'] hblank)
    · have hclosing : x ≠ inner.closing := by
        rintro rfl
        exact hplain (by cases inner <;> decide)
      simp only [List.cons_append, List.head?_cons, if_neg hclosing, Bool.not_true,
        Bool.false_eq_true, and_false, if_false]
      exact helement.bind_nil (.pure _ more)
  | @next before blanks hbefore hblanks =>
    rw [List.append_assoc, List.cons_append]
    refine .afterBlanks hbefore (not_blank_cons (by decide)) ?_
    simp only [List.cons_append, List.head?_cons, Bool.not_false, and_self, if_true]
    exact .advance_bind ((reads_skipElement hblanks hkey hstart).bind_nil (.pure _ more))

/-- A round steps over the bracket that closes. -/
theorem reads_skipRound_closing (inner : Bracket) (outer : List Bracket) (afterElement : Bool)
    {blanks : List Char} (hblanks : Blanks blanks) (more : List Char) :
    Reads (skipRound (inner :: outer, afterElement)) (blanks ++ [inner.closing])
      (if outer.isEmpty then .inr () else .inl (outer, true)) more := by
  refine .afterBlanks hblanks (fun y hy => ?_) ?_
  · obtain rfl : inner.closing = y := Option.some.inj hy
    cases inner <;> decide
  · have hcomma : ¬ (inner.closing = ',' ∧ afterElement = true) := by
      cases inner <;> exact fun h => absurd h.1 (by decide)
    simp only [List.cons_append, List.head?_cons, if_neg hcomma, if_true]
    refine .advance_bind ?_
    split <;> exact .pure _ more

end Elements

/-! ## Elements -/

/-- Between brackets, rounds step over the element with what stands before it, and go on in the
state in which they would be had it not been there, but for a comma. -/
def Passes (inner : Bracket) (outer : List Bracket) (element : List Char) : Prop :=
  ∀ (first : Bool) (lead rest more : List Char), Lead first lead → Ends (rest ++ more) →
    Repeats skipRound (inner :: outer, true) rest (some ()) more →
    Repeats skipRound (inner :: outer, !first) (lead ++ (element ++ rest)) (some ()) more

/-- Elements that are joined are passed one after the other, up to the bracket that closes. -/
theorem repeats_of_passes {inner : Bracket} {outer : List Bracket} {first : Bool}
    {elements : List (List Char)} {text rest more : List Char} (h : Joined first elements text)
    (helements : ∀ e ∈ elements, Passes inner outer e)
    (hclosed : ∀ blanks afterElement, Blanks blanks →
      Repeats skipRound (inner :: outer, afterElement) (blanks ++ inner.closing :: rest) (some ())
        more) :
    Repeats skipRound (inner :: outer, !first) (text ++ inner.closing :: rest) (some ()) more := by
  induction h with
  | nil hblanks => exact hclosed _ _ hblanks
  | cons hlead hrest ih =>
    obtain ⟨helement, helements⟩ := List.forall_mem_cons.mp helements
    rw [List.append_assoc, List.append_assoc]
    refine helement _ _ _ more hlead ?_ (ih helements)
    rw [List.append_assoc]
    exact ends_joined hrest (by cases inner <;> decide) _

/-- Inside other brackets, rounds go on behind the bracket that closes. -/
theorem repeats_closing {inner next : Bracket} {outer : List Bracket} {rest more : List Char}
    (hrest : Repeats skipRound (next :: outer, true) rest (some ()) more) (blanks : List Char)
    (afterElement : Bool) (hblanks : Blanks blanks) :
    Repeats skipRound (inner :: next :: outer, afterElement) (blanks ++ inner.closing :: rest)
      (some ()) more := by
  have hclose := reads_skipRound_closing inner (next :: outer) afterElement hblanks (rest ++ more)
  have hsplit : blanks ++ inner.closing :: rest = (blanks ++ [inner.closing]) ++ rest := by simp
  rw [hsplit]
  exact .next hclose (List.append_ne_nil_of_right_ne_nil _ (List.cons_ne_nil _ _)) hrest

/-- Rounds go on behind the start of an element. -/
theorem repeats_element {inner : Bracket} {outer : List Bracket} {first : Bool}
    {lead key after start rest more : List Char} {o : Option Bracket} (hlead : Lead first lead)
    (hkey : KeyText inner key after)
    (hhead : ∃ x rest, start = x :: rest ∧ x ∉ [' ', '\t', '\n', '\r', ',', ':', ']', '\x7d'])
    (hstart : ∀ blanks, Blanks blanks → Reads skipStart (blanks ++ start) o (rest ++ more))
    (hrest : Repeats skipRound (entered inner outer o) rest (some ()) more) :
    Repeats skipRound (inner :: outer, !first) (lead ++ (key ++ (after ++ (start ++ rest))))
      (some ()) more := by
  have hsplit : lead ++ (key ++ (after ++ (start ++ rest))) =
      (lead ++ (key ++ (after ++ start))) ++ rest := by simp
  rw [hsplit]
  refine .next (reads_skipRound_element hlead hkey hhead hstart) ?_ hrest
  obtain ⟨x, start, rfl, -⟩ := hhead
  simp

/-- A scalar is passed in one round. -/
theorem passes_scalar {t : Written} {text : List Char} (h : t.Spells text)
    (hstart : ∀ blanks more, Blanks blanks → Ends more → Reads skipStart (blanks ++ text) none more)
    {inner : Bracket} (outer : List Bracket) {key after : List Char}
    (hkey : KeyText inner key after) : Passes inner outer (key ++ (after ++ text)) := by
  intro first lead rest more hlead hends hrest
  rw [List.append_assoc, List.append_assoc]
  exact repeats_element hlead hkey h.exists_cons
    (fun blanks hblanks => hstart blanks _ hblanks hends) hrest

/-- Between brackets of its own, the elements of an element are passed before it ends. -/
theorem passes_bracketed {b : Bracket} {text : List Char} {elements : List (List Char)}
    (hjoined : Joined true elements text) {inner : Bracket} {outer : List Bracket}
    (helements : ∀ e ∈ elements, Passes b (inner :: outer) e)
    {key after : List Char} (hkey : KeyText inner key after) :
    Passes inner outer (key ++ (after ++ b.opening :: (text ++ [b.closing]))) := by
  intro first lead rest more hlead hends hrest
  have hinside : Repeats skipRound (b :: inner :: outer, !true) (text ++ b.closing :: rest)
      (some ()) more := repeats_of_passes hjoined helements (repeats_closing hrest)
  have hsplit : key ++ (after ++ b.opening :: (text ++ [b.closing])) ++ rest =
      key ++ (after ++ ([b.opening] ++ (text ++ b.closing :: rest))) := by simp
  rw [hsplit]
  exact repeats_element hlead hkey ⟨b.opening, [], rfl, by cases b <;> decide⟩
    (fun blanks hblanks => reads_skipStart_opening b hblanks _) hinside

/-! ## Values -/

/-- The text of a tree, with its key when it is the value of a member, is an element that is
passed. -/
theorem passes_of_spells {t : Written} {text : List Char} (h : t.Spells text) (inner : Bracket)
    (outer : List Bracket) {key after : List Char} (hkey : KeyText inner key after) :
    Passes inner outer (key ++ (after ++ text)) := by
  induction h generalizing inner outer key after with
  | null =>
    exact passes_scalar .null (fun _ _ => reads_skipStart .null .null) outer hkey
  | truth => exact passes_scalar .truth (fun _ _ => reads_skipStart (.bool _) .truth) outer hkey
  | falsehood =>
    exact passes_scalar .falsehood (fun _ _ => reads_skipStart (.bool _) .falsehood) outer hkey
  | number h =>
    exact passes_scalar (.number h) (fun _ _ => reads_skipStart (.number _) (.number h)) outer hkey
  | string h =>
    exact passes_scalar (.string h) (fun _ _ => reads_skipStart (.string _) (.string h)) outer hkey
  | @array items text hitems hjoined ih =>
    refine passes_bracketed (b := .square) hjoined (fun e he => ?_) hkey
    obtain ⟨i, hi, rfl⟩ := List.mem_map.mp he
    exact ih i hi .square (inner :: outer) .square
  | @object members text hmembers hformed hjoined ih =>
    refine passes_bracketed (b := .curly) hjoined (fun e he => ?_) hkey
    obtain ⟨m, hm, rfl⟩ := List.mem_map.mp he
    rw [m.spelling_eq]
    exact ih m hm .curly (inner :: outer) (hformed m hm).keyText

/-- The elements of the outermost brackets are passed before the value ends. -/
theorem reads_skipValue_bracketed {b : Bracket} {text more : List Char}
    {elements : List (List Char)} (hjoined : Joined true elements text)
    (helements : ∀ e ∈ elements, Passes b [] e) {blanks : List Char} (hblanks : Blanks blanks) :
    Reads skipValue (blanks ++ b.opening :: (text ++ [b.closing])) () more := by
  have hclosed : ∀ blanks afterElement, Blanks blanks → Repeats skipRound ([b], afterElement)
      (blanks ++ [b.closing]) (some ()) more := fun blanks afterElement hblanks =>
    .last (reads_skipRound_closing b [] afterElement hblanks more)
  have hrounds : Repeats skipRound ([b], !true) (text ++ [b.closing]) (some ()) more :=
    repeats_of_passes hjoined helements hclosed
  have hsplit : blanks ++ b.opening :: (text ++ [b.closing]) =
      (blanks ++ [b.opening]) ++ (text ++ [b.closing]) := by simp
  rw [hsplit]
  exact .bind (reads_skipStart_opening b hblanks _) hrounds.outcome

/-- The text of a tree is stepped over. -/
theorem reads_skipValue {t : Written} {text blanks more : List Char} (h : t.Spells text)
    (hblanks : Blanks blanks) (hmore : Ends more) : Reads skipValue (blanks ++ text) () more := by
  have hscalar : ∀ {t : Written}, Scalar t → ∀ {text : List Char}, t.Spells text →
      Reads skipValue (blanks ++ text) () more := fun ht _ h =>
    (reads_skipStart ht h hblanks hmore).bind_nil (.pure () more)
  cases h with
  | null => exact hscalar .null .null
  | truth => exact hscalar (.bool _) .truth
  | falsehood => exact hscalar (.bool _) .falsehood
  | number h => exact hscalar (.number _) (.number h)
  | string h => exact hscalar (.string _) (.string h)
  | @array items text hitems hjoined =>
    refine reads_skipValue_bracketed (b := .square) hjoined (fun e he => ?_) hblanks
    obtain ⟨i, hi, rfl⟩ := List.mem_map.mp he
    exact passes_of_spells (hitems i hi) .square [] .square
  | @object members text hmembers hformed hjoined =>
    refine reads_skipValue_bracketed (b := .curly) hjoined (fun e he => ?_) hblanks
    obtain ⟨m, hm, rfl⟩ := List.mem_map.mp he
    rw [m.spelling_eq]
    exact passes_of_spells (hmembers m hm) .curly [] (hformed m hm).keyText

end Reader

end Pipewright.Json
