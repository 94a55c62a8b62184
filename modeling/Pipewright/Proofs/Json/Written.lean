import Pipewright.Json.Scalar
import Pipewright.Proofs.Json.Numerals
import Pipewright.Proofs.Json.Reads

/-!
# JSON as it is written

A text in the grammar of JSON is that of a tree: of scalars, and of arrays and objects of smaller
trees.  The tree keeps how a number or a string is written, with its zeros and its escapes, and the
members of an object with the order and the repetitions in which they stand.  It does not keep the
blanks.

* `StringText`, `NumeralText`: what stands between quotes, and numbers.
* `Written`, `Written.Spells`: the trees, and the texts of a tree.
* `Written.Sound`, `sound_array_iff`, `sound_object_iff`: the trees that have texts.
* `Written.IsOf`: the tree of a whole text.
-/

namespace Pipewright.Json

open Reader

/-! ## Scalars -/

/-- What may stand between the quotes of a string: characters that are neither controls nor quotes
nor backslashes, and escapes of a letter or of four hexadecimal digits. -/
inductive StringText : List Char → Prop where
  | nil : StringText []
  | plain {c : Char} {cs : List Char} (hcontrol : ¬ c.toNat < 0x20) (hquote : c ≠ '"')
      (hbackslash : c ≠ '\\') (h : StringText cs) : StringText (c :: cs)
  | letter {x y : Char} {cs : List Char} (hx : escaped? x = some y) (h : StringText cs) :
      StringText ('\\' :: x :: cs)
  | unit {digits cs : List Char} {n : Nat} (hlength : digits.length = 4)
      (hdigits : fourHexDigits? digits = some n) (h : StringText cs) :
      StringText ('\\' :: 'u' :: (digits ++ cs))

theorem stringText_of_plain {cs : List Char}
    (h : ∀ c ∈ cs, ¬ c.toNat < 0x20 ∧ c ≠ '"' ∧ c ≠ '\\') : StringText cs := by
  induction cs with
  | nil => exact .nil
  | cons c cs ih =>
    obtain ⟨⟨hcontrol, hquote, hbackslash⟩, hcs⟩ := List.forall_mem_cons.mp h
    exact .plain hcontrol hquote hbackslash (ih hcs)

/-- The digits before the point: a zero alone, or others that do not start with one. -/
inductive WholeText : List Char → Prop where
  | zero : WholeText ['0']
  | digits {x : Char} {ds : List Char} (hx : x ≠ '0') (h : IsDigits (x :: ds)) :
      WholeText (x :: ds)

/-- No exponent, or one that may have a sign. -/
inductive ScaleText : List Char → Prop where
  | none : ScaleText []
  | some {e : Char} {sign ds : List Char} (he : e = 'e' ∨ e = 'E')
      (hsign : sign = [] ∨ sign = ['+'] ∨ sign = ['-']) (h : IsDigits ds) :
      ScaleText (e :: (sign ++ ds))

/-- A number without its sign. -/
inductive MagnitudeText : List Char → Prop where
  | mk {whole fraction scale : List Char} (hwhole : WholeText whole)
      (hfraction : FractionText fraction) (hscale : ScaleText scale) :
      MagnitudeText (whole ++ (fraction ++ scale))

/-- A number. -/
inductive NumeralText : List Char → Prop where
  | plain {cs : List Char} (h : MagnitudeText cs) : NumeralText cs
  | negative {cs : List Char} (h : MagnitudeText cs) : NumeralText ('-' :: cs)

/-- A digit starts a number without a sign. -/
theorem MagnitudeText.exists_cons {cs : List Char} (h : MagnitudeText cs) :
    ∃ x rest, cs = x :: rest ∧ x.isDigit = true := by
  obtain ⟨hwhole, -, -⟩ := h
  cases hwhole with
  | zero => exact ⟨'0', _, rfl, rfl⟩
  | @digits x ds hx hds => exact ⟨x, _, rfl, hds.isDigit x List.mem_cons_self⟩

/-! ## Trees -/

/-- A JSON value as it is written.  Numbers are given by their characters, and strings by what
stands between their quotes. -/
inductive Written where
  | null
  | bool (b : Bool)
  | number (cs : List Char)
  | string (cs : List Char)
  | array (items : List Written)
  | object (members : List (List Char × Written))

/-- What stands before an item or a member: blanks and, unless it is the first one, a comma. -/
inductive Lead : Bool → List Char → Prop where
  | first {blanks : List Char} (h : Blanks blanks) : Lead true blanks
  | next {before after : List Char} (hbefore : Blanks before) (hafter : Blanks after) :
      Lead false (before ++ ',' :: after)

/-- Texts with what stands before each of them, and with the blanks behind the last one. -/
inductive Joined : Bool → List (List Char) → List Char → Prop where
  | nil {first : Bool} {blanks : List Char} (h : Blanks blanks) : Joined first [] blanks
  | cons {first : Bool} {lead text rest : List Char} {texts : List (List Char)}
      (hlead : Lead first lead) (hrest : Joined false texts rest) :
      Joined first (text :: texts) (lead ++ (text ++ rest))

/-- A member of an object with its text: its key and its value, the text of the value, and the
blanks on both sides of the colon. -/
structure MemberSpelling where
  key : List Char
  value : Written
  before : List Char
  after : List Char
  text : List Char

namespace MemberSpelling

/-- The member without its text. -/
def member (m : MemberSpelling) : List Char × Written :=
  (m.key, m.value)

/-- The text of the member from the colon on, with the blanks before it. -/
def tail (m : MemberSpelling) : List Char :=
  m.before ++ ':' :: (m.after ++ m.text)

/-- The text of the member. -/
def spelling (m : MemberSpelling) : List Char :=
  '"' :: (m.key ++ '"' :: m.tail)

/-- The parts of the text of the member are what they should be, apart from the value. -/
structure Formed (m : MemberSpelling) : Prop where
  key : StringText m.key
  before : Blanks m.before
  after : Blanks m.after

end MemberSpelling

namespace Written

/-- The text is one of the tree. -/
inductive Spells : Written → List Char → Prop where
  | null : Spells .null ['n', 'u', 'l', 'l']
  | truth : Spells (.bool true) ['t', 'r', 'u', 'e']
  | falsehood : Spells (.bool false) ['f', 'a', 'l', 's', 'e']
  | number {cs : List Char} (h : NumeralText cs) : Spells (.number cs) cs
  | string {cs : List Char} (h : StringText cs) : Spells (.string cs) ('"' :: (cs ++ ['"']))
  | array {items : List (Written × List Char)} {text : List Char}
      (hitems : ∀ i ∈ items, Spells i.1 i.2) (hjoined : Joined true (items.map Prod.snd) text) :
      Spells (.array (items.map Prod.fst)) ('[' :: (text ++ [']']))
  | object {members : List MemberSpelling} {text : List Char}
      (hmembers : ∀ m ∈ members, Spells m.value m.text) (hformed : ∀ m ∈ members, m.Formed)
      (hjoined : Joined true (members.map MemberSpelling.spelling) text) :
      Spells (.object (members.map MemberSpelling.member)) ('\x7b' :: (text ++ ['\x7d']))

/-- The tree has a text. -/
def Sound (t : Written) : Prop := ∃ text, t.Spells text

/-- The tree is that of a whole text, which may have blanks on both sides. -/
def IsOf (t : Written) (source : String) : Prop :=
  ∃ before text after, source.toList = before ++ (text ++ after) ∧ Blanks before ∧
    t.Spells text ∧ Blanks after

theorem IsOf.sound {t : Written} {source : String} (h : t.IsOf source) : t.Sound := by
  obtain ⟨-, text, -, -, -, htext, -⟩ := h
  exact ⟨text, htext⟩

/-! ## Where texts start -/

/-- The character may start a text of the tree. -/
def Begins : Written → Char → Prop
  | null, x => x = 'n'
  | bool true, x => x = 't'
  | bool false, x => x = 'f'
  | number _, x => x = '-' ∨ x.isDigit = true
  | string _, x => x = '"'
  | array _, x => x = '['
  | object _, x => x = '\x7b'

/-- A quote starts strings alone. -/
theorem begins_quote {t : Written} : t.Begins '"' ↔ ∃ cs, t = .string cs := by
  cases t with
  | bool b => cases b <;> simp [Begins]
  | _ => simp [Begins]

/-- The letter `n` starts nulls alone. -/
theorem begins_n {t : Written} : t.Begins 'n' ↔ t = .null := by
  cases t with
  | bool b => cases b <;> simp [Begins]
  | _ => simp [Begins]

theorem begins_square {t : Written} : t.Begins '[' ↔ ∃ ts, t = .array ts := by
  cases t with
  | bool b => cases b <;> simp [Begins]
  | _ => simp [Begins]

theorem begins_curly {t : Written} : t.Begins '\x7b' ↔ ∃ ms, t = .object ms := by
  cases t with
  | bool b => cases b <;> simp [Begins]
  | _ => simp [Begins]

theorem begins_minus {t : Written} (h : t.Begins '-') : ∃ cs, t = .number cs := by
  cases t with
  | bool b => cases b <;> simp [Begins] at h
  | number cs => exact ⟨cs, rfl⟩
  | _ => simp [Begins] at h

theorem begins_digit {t : Written} {x : Char} (hx : x.isDigit = true) (h : t.Begins x) :
    ∃ cs, t = .number cs := by
  cases t with
  | bool b =>
    cases b with
    | true => cases h ▸ hx
    | false => cases h ▸ hx
  | number cs => exact ⟨cs, rfl⟩
  | _ => cases h ▸ hx

theorem Spells.begins {t : Written} {text : List Char} (h : t.Spells text) :
    ∃ x rest, text = x :: rest ∧ t.Begins x := by
  cases h with
  | number h =>
    cases h with
    | negative => exact ⟨'-', _, rfl, .inl rfl⟩
    | plain h =>
      obtain ⟨x, rest, rfl, hx⟩ := h.exists_cons
      exact ⟨x, rest, rfl, .inr hx⟩
  | _ => exact ⟨_, _, rfl, rfl⟩

/-- Neither a blank nor a comma, a colon or a bracket that closes starts a text of a tree. -/
theorem Begins.notMem {t : Written} {x : Char} (h : t.Begins x) :
    x ∉ [' ', '\t', '\n', '\r', ',', ':', ']', '\x7d'] := by
  cases t with
  | number cs =>
    have hall : ∀ y ∈ [' ', '\t', '\n', '\r', ',', ':', ']', '\x7d'],
        y ≠ '-' ∧ y.isDigit = false := by simp
    intro hmem
    obtain ⟨hminus, hdigit⟩ := hall x hmem
    rcases h with rfl | h
    · exact hminus rfl
    · rw [h] at hdigit
      cases hdigit
  | bool b =>
    cases b with
    | true => exact h ▸ (by decide)
    | false => exact h ▸ (by decide)
  | _ => exact h ▸ (by decide)

theorem Spells.exists_cons {t : Written} {text : List Char} (h : t.Spells text) :
    ∃ x rest, text = x :: rest ∧ x ∉ [' ', '\t', '\n', '\r', ',', ':', ']', '\x7d'] := by
  obtain ⟨x, rest, rfl, hx⟩ := h.begins
  exact ⟨x, rest, rfl, hx.notMem⟩

/-! ## Trees that have texts -/

/-- Texts can always be joined. -/
theorem exists_joined (first : Bool) (texts : List (List Char)) :
    ∃ text, Joined first texts text := by
  induction texts generalizing first with
  | nil => exact ⟨[], .nil blanks_nil⟩
  | cons text texts ih =>
    obtain ⟨rest, hrest⟩ := ih false
    cases first with
    | true => exact ⟨_, .cons (.first blanks_nil) hrest⟩
    | false => exact ⟨_, .cons (.next blanks_nil blanks_nil) hrest⟩

theorem sound_array_iff {ts : List Written} : (array ts).Sound ↔ ∀ t ∈ ts, t.Sound := by
  constructor
  · rintro ⟨_, hspells⟩ t ht
    cases hspells with | @array items text hitems hjoined =>
    obtain ⟨i, hi, rfl⟩ := List.mem_map.mp ht
    exact ⟨i.2, hitems i hi⟩
  · intro h
    choose f hf using h
    let spell : { t // t ∈ ts } → Written × List Char := fun t => (t.1, f t.1 t.2)
    have hitems : ∀ i ∈ ts.attach.map spell, Spells i.1 i.2 := by
      intro i hi
      obtain ⟨t, -, rfl⟩ := List.mem_map.mp hi
      exact hf t.1 t.2
    obtain ⟨text, hjoined⟩ := exists_joined true ((ts.attach.map spell).map Prod.snd)
    have hspells := Spells.array hitems hjoined
    have hitem : Prod.fst ∘ spell = Subtype.val := rfl
    rw [List.map_map, hitem, List.attach_map_subtype_val] at hspells
    exact ⟨_, hspells⟩

theorem sound_object_iff {ms : List (List Char × Written)} :
    (object ms).Sound ↔ ∀ m ∈ ms, StringText m.1 ∧ m.2.Sound := by
  constructor
  · rintro ⟨_, hspells⟩ m hm
    cases hspells with | @object members text hmembers hformed hjoined =>
    obtain ⟨p, hp, rfl⟩ := List.mem_map.mp hm
    exact ⟨(hformed p hp).key, p.text, hmembers p hp⟩
  · intro h
    choose hkeys f hf using h
    let spell : { m // m ∈ ms } → MemberSpelling := fun m => ⟨m.1.1, m.1.2, [], [], f m.1 m.2⟩
    have hmembers : ∀ p ∈ ms.attach.map spell, Spells p.value p.text := by
      intro p hp
      obtain ⟨m, -, rfl⟩ := List.mem_map.mp hp
      exact hf m.1 m.2
    have hformed : ∀ p ∈ ms.attach.map spell, p.Formed := by
      intro p hp
      obtain ⟨m, -, rfl⟩ := List.mem_map.mp hp
      exact ⟨hkeys m.1 m.2, blanks_nil, blanks_nil⟩
    obtain ⟨text, hjoined⟩ := exists_joined true ((ms.attach.map spell).map
      MemberSpelling.spelling)
    have hspells := Spells.object hmembers hformed hjoined
    have hmember : MemberSpelling.member ∘ spell = Subtype.val := rfl
    rw [List.map_map, hmember, List.attach_map_subtype_val] at hspells
    exact ⟨_, hspells⟩

end Written

end Pipewright.Json
