import Pipewright.Proofs.Results
import Pipewright.Proofs.Step.Names

/-!
# How names are spelled

Camel case keeps the letters and digits of a text, drops everything else and changes nothing but
the case of letters: capitals begin the words after underscores, and there are no others.  The
label of a process is therefore told by the letters and digits of what the step is called and of
the beginning of its node's id.  Since the id comes last, nodes whose ids begin with different
letters and digits have different labels, whatever they are called.

* `spelling`, `wordsOf`: the letters and digits of a text, and its words.
* `Recased`: one text is another one but for the case, with capitals at the beginnings of words.
* `recased_camelCase`: camel case is.
* `StepName.CalledAfter`, `StepName.of_eq_ok_iff`: what a step is called before the id.
* `StepName.label_eq_iff_spelling`: which labels are equal.
* `StepName.names_spelled`, `StepName.ne_of_idStart`: the main statements.
-/

namespace Pipewright

/-! ## Letters and words -/

/-- The ASCII letters and digits of a text, in lower case. -/
def spelling (s : String) : List Char :=
  (s.toList.filter Char.isAlphanum).map Char.toLower

/-- The words of a text between underscores, of each its ASCII letters and digits. -/
def wordsOf (s : String) : List (List Char) :=
  (s.toList.splitOn '_').map (List.filter Char.isAlphanum)

/-- A word of the text that is not the first one has its first character at a position among the
letters and digits of the text. -/
def BeginsWord (s : String) (position : Nat) : Prop :=
  ∃ before word after, wordsOf s = before ++ word :: after ∧ before ≠ [] ∧ word ≠ [] ∧
    before.flatten.length = position

/-- A text has the ASCII letters and digits of another one and no other characters.  They differ in
case only, and capitals are at the beginnings of words but the first one. -/
structure Recased (s word : String) : Prop where
  lettered : ∀ c ∈ word.toList, c.isAlphanum = true
  lower_eq : word.toList.map Char.toLower = spelling s
  capital : ∀ i c, word.toList[i]? = some c → c.isUpper = true → BeginsWord s i

theorem spelling_append (s t : String) : spelling (s ++ t) = spelling s ++ spelling t := by
  simp only [spelling, String.toList_append, List.filter_append, List.map_append]

/-- The words of a text hold its letters and digits. -/
theorem flatten_wordsOf (s : String) : (wordsOf s).flatten = s.toList.filter Char.isAlphanum := by
  have hunderscore : ∀ c ∈ ['_'], c.isAlphanum = false := by simp
  have hwhole : ['_'].intercalate (s.toList.splitOn '_') = s.toList := List.intercalate_splitOn '_'
  rw [← hwhole, Text.filter_intercalate hunderscore, List.filter_flatten]
  rfl

/-! ## Camel case -/

theorem toLower_eq_underscore_iff {c : Char} : c.toLower = '_' ↔ c = '_' := by
  constructor
  · intro h
    by_cases hupper : c.isUpper = true
    · have halpha : c.toLower.isAlpha = true := by simp [Char.isAlpha, hupper]
      rw [h] at halpha
      cases halpha
    · rwa [Char.toLower_eq_of_not_isUpper hupper] at h
  · rintro rfl
    rfl

/-- The words that are joined are those of the text, in lower case. -/
theorem camelCase_eq (s : String) :
    (camelCase s).toList = joinWords ((wordsOf s).map (List.map Char.toLower)) := by
  have hwords : (s.toList.filter isNameChar).splitOn '_' = wordsOf s := by
    rw [Text.splitOn_filter (by decide), wordsOf]
    refine List.map_congr_left fun w hw => List.filter_congr fun c hc => ?_
    have hne : c ≠ '_' := (Text.mem_of_mem_splitOn hw hc).2
    rw [isNameChar, decide_eq_false hne, Bool.or_false]
  rw [camelCase, String.toList_ofList, Text.splitOn_map fun c => toLower_eq_underscore_iff, hwords]

theorem map_toLower_capitalize (w : List Char) :
    (capitalize w).map Char.toLower = w.map Char.toLower := by
  cases w with
  | nil => rfl
  | cons c w => rw [capitalize, List.map_cons, List.map_cons, Char.toLower_toUpper_eq_toLower]

theorem isUpper_of_mem_map_toLower {w : List Char} {c : Char} (h : c ∈ w.map Char.toLower) :
    c.isUpper = false := by
  obtain ⟨b, -, rfl⟩ := List.mem_map.mp h
  exact Char.isUpper_toLower_eq_false b

/-- Joining words changes nothing but the case. -/
theorem map_toLower_joinWords (ws : List (List Char)) :
    (joinWords ws).map Char.toLower = ws.flatten.map Char.toLower := by
  cases ws with
  | nil => rfl
  | cons w ws =>
    rw [joinWords, List.map_append, List.map_flatMap, List.flatten_cons, List.map_append,
      List.map_flatten, ← List.flatMap_def,
      List.flatMap_congr fun w _ => map_toLower_capitalize w]

/-- Among words in lower case that are given capitals, a capital is the first letter of a word. -/
theorem exists_split_of_capital {ws : List (List Char)} {i : Nat} {c : Char}
    (hc : (ws.flatMap fun w => capitalize (w.map Char.toLower))[i]? = some c)
    (hupper : c.isUpper = true) :
    ∃ before w after, ws = before ++ w :: after ∧ w ≠ [] ∧ before.flatten.length = i := by
  induction ws generalizing i with
  | nil => cases hc
  | cons w ws ih =>
    have hlength : (capitalize (w.map Char.toLower)).length = w.length := by
      cases w <;> simp [capitalize]
    rw [List.flatMap_cons] at hc
    rcases Nat.lt_or_ge i (capitalize (w.map Char.toLower)).length with hi | hi
    · rw [List.getElem?_append_left hi] at hc
      rcases w with _ | ⟨b, w⟩
      · cases hc
      rcases i with _ | i
      · exact ⟨[], b :: w, ws, rfl, List.cons_ne_nil b w, rfl⟩
      · -- behind its first letter a word has no capitals
        rw [isUpper_of_mem_map_toLower (List.mem_of_getElem? hc)] at hupper
        cases hupper
    · rw [List.getElem?_append_right hi] at hc
      obtain ⟨before, v, after, rfl, hv, hbefore⟩ := ih hc
      refine ⟨w :: before, v, after, rfl, hv, ?_⟩
      rw [List.flatten_cons, List.length_append, hbefore]
      omega

/-- Camel case is the text's letters and digits, with capitals at the beginnings of words. -/
theorem recased_camelCase (s : String) : Recased s (camelCase s) where
  lettered _ hc := isAlphanum_of_mem_camelCase hc
  lower_eq := by
    have hagain : (List.map Char.toLower ∘ List.map Char.toLower : List Char → List Char) =
        List.map Char.toLower := by
      funext w
      rw [Function.comp_apply, List.map_map]
      exact List.map_congr_left fun c _ => Char.toLower_toLower_eq_toLower c
    rw [spelling, camelCase_eq, map_toLower_joinWords, List.map_flatten, List.map_map, hagain,
      ← List.map_flatten, flatten_wordsOf]
  capital i c hc hupper := by
    rw [camelCase_eq] at hc
    rcases hwords : wordsOf s with _ | ⟨first, rest⟩
    · rw [hwords] at hc
      cases hc
    rw [hwords, List.map_cons, joinWords, List.flatMap_map] at hc
    rcases Nat.lt_or_ge i (first.map Char.toLower).length with hi | hi
    · -- the first word has no capitals at all
      rw [List.getElem?_append_left hi] at hc
      rw [isUpper_of_mem_map_toLower (List.mem_of_getElem? hc)] at hupper
      cases hupper
    · rw [List.getElem?_append_right hi] at hc
      obtain ⟨before, word, after, rfl, hne, hlength⟩ := exists_split_of_capital hc hupper
      refine ⟨first :: before, word, after, hwords, List.cons_ne_nil _ _, hne, ?_⟩
      rw [List.flatten_cons, List.length_append, hlength]
      rw [List.length_map] at hi ⊢
      omega

/-- Words without letters and digits leave nothing, and neither do underscores in front. -/
example : camelCase "__Ab_é_cD9" = "AbCd9" := by decide +kernel

/-! ## Names of steps -/

namespace StepName

variable {m n : Node} {a b name : StepName} {base : String}

/-- What a step is called before the id: the label of its node, or the stem of its file's name if
the node has no label or a blank one.  A file whose name is blank does not count. -/
inductive CalledAfter (attributes : Attributes) : String → Prop where
  | label {label : String} (h : attributes.label = some label)
      (hfilled : Text.isBlank label = false) : CalledAfter attributes label
  | file {filename : String}
      (hlabel : ∀ label, attributes.label = some label → Text.isBlank label = true)
      (h : attributes.filename = some filename) (hfilled : Text.isBlank filename = false) :
      CalledAfter attributes (stem filename)

theorem calledAfter_iff {attributes : Attributes} :
    CalledAfter attributes base ↔ base? attributes = some base := by
  rw [base?]
  rcases hlabel : Text.filledIn attributes.label with _ | label
  · rw [Text.filledIn_eq_none_iff] at hlabel
    simp only [Option.map_eq_some_iff, Attributes.sourceFile?, Text.filledIn_eq_some_iff]
    constructor
    · rintro (⟨h, hfilled⟩ | ⟨-, h, hfilled⟩)
      · rw [hlabel _ h] at hfilled
        cases hfilled
      · exact ⟨_, ⟨h, hfilled⟩, rfl⟩
    · rintro ⟨filename, ⟨h, hfilled⟩, rfl⟩
      exact .file hlabel h hfilled
  · rw [Text.filledIn_eq_some_iff] at hlabel
    rw [Option.some_inj]
    constructor
    · rintro (⟨h, -⟩ | ⟨hblank, -, -⟩)
      · exact Option.some.inj (hlabel.1.symm.trans h)
      · rw [hblank _ hlabel.1] at hlabel
        cases hlabel.2
    · rintro rfl
      exact .label hlabel.1 hlabel.2

/-- A step is named after what it is called and the beginning of its node's id. -/
theorem of_eq_ok_iff : of n = .ok name ↔
    ∃ base, CalledAfter n.attributes base ∧ name = ⟨camelCase (base ++ "_" ++ idStart n.id)⟩ := by
  simp only [calledAfter_iff]
  rw [of]
  rcases base? n.attributes with _ | base
  · simp
  · simp [eq_comm]

/-- A name in lower case is spelled like what the step is called, with the beginning of the id
behind. -/
theorem map_toLower_camelCase (base id : String) :
    (camelCase (base ++ "_" ++ idStart id)).toList.map Char.toLower =
      spelling base ++ spelling (idStart id) := by
  have hunderscore : spelling "_" = [] := rfl
  rw [(recased_camelCase _).lower_eq, spelling_append, spelling_append, hunderscore,
    List.append_nil]

/-- Two steps have one label exactly when what they are called and the beginnings of their ids are
spelled alike. -/
theorem label_eq_iff_spelling {base base' id id' : String}
    (ha : a = ⟨camelCase (base ++ "_" ++ idStart id)⟩)
    (hb : b = ⟨camelCase (base' ++ "_" ++ idStart id')⟩) :
    a.label = b.label ↔
      spelling base ++ spelling (idStart id) = spelling base' ++ spelling (idStart id') := by
  rw [label_eq_label_iff, ← String.toList_inj, String.toLower, String.toLower, String.toList_map,
    String.toList_map, ha, hb, map_toLower_camelCase, map_toLower_camelCase]

/-- For every text, camel case changes the case of its letters and digits only.  Two nodes that have
names have one label exactly when what they are called before the id and the beginnings of their ids
have the same letters and digits but for the case.  A name is empty when there are none. -/
theorem names_spelled :
    (∀ s, Recased s (camelCase s)) ∧
    (∀ m n a b, of m = .ok a → of n = .ok b → ∃ base base',
      CalledAfter m.attributes base ∧ CalledAfter n.attributes base' ∧
      (a.label = b.label ↔ spelling (base ++ idStart m.id) = spelling (base' ++ idStart n.id))) ∧
    ∀ n name, of n = .ok name → ∃ base, CalledAfter n.attributes base ∧
      (name.text = "" ↔ ∀ c ∈ base.toList ++ (idStart n.id).toList, c.isAlphanum = false) := by
  refine ⟨recased_camelCase, fun m n a b ha hb => ?_, fun n name h => ?_⟩
  · obtain ⟨base, hbase, ha⟩ := of_eq_ok_iff.mp ha
    obtain ⟨base', hbase', hb⟩ := of_eq_ok_iff.mp hb
    refine ⟨base, base', hbase, hbase', ?_⟩
    rw [spelling_append, spelling_append]
    exact label_eq_iff_spelling ha hb
  · obtain ⟨base, hbase, rfl⟩ := of_eq_ok_iff.mp h
    refine ⟨base, hbase, ?_⟩
    have hspelled := map_toLower_camelCase base n.id
    rw [← spelling_append, spelling, String.toList_append] at hspelled
    rw [← String.toList_eq_nil_iff, ← List.map_eq_nil_iff (f := Char.toLower), hspelled,
      List.map_eq_nil_iff, List.filter_eq_nil_iff]
    simp only [Bool.not_eq_true]

/-- A node with a label of two words. -/
def wordsNode : Node where
  id := "xyz1"
  attributes := { label := some "Load_Data!" }

/-- A node with a blank label whose file is called like the two words in one. -/
def blankNode : Node where
  id := "xyz2"
  attributes := { label := some " ", filename := some "steps/LoadData.v2.R" }

/-- A node that is called nothing that could stand in a name. -/
def signNode : Node where
  id := "é"
  attributes := { label := some "***" }

/-- Two nodes with names that differ in one capital have one label, and a node without letters and
digits has an empty name. -/
theorem names_spelled_wordsNode :
    of wordsNode = .ok ⟨"loadDataXyz"⟩ ∧ of blankNode = .ok ⟨"loaddataXyz"⟩ ∧
    label ⟨"loadDataXyz"⟩ = label ⟨"loaddataXyz"⟩ ∧ of signNode = .ok ⟨""⟩ ∧
    ∃ base, CalledAfter signNode.attributes base ∧
      ∀ c ∈ base.toList ++ (idStart signNode.id).toList, c.isAlphanum = false := by
  have hwords : of wordsNode = .ok ⟨"loadDataXyz"⟩ := eq_ok_of_toOption (by decide +kernel)
  have hblank : of blankNode = .ok ⟨"loaddataXyz"⟩ := eq_ok_of_toOption (by decide +kernel)
  have hsign : of signNode = .ok ⟨""⟩ := eq_ok_of_toOption (by decide +kernel)
  obtain ⟨-, hlabels, hempty⟩ := names_spelled
  obtain ⟨base, base', hbase, hbase', hiff⟩ := hlabels _ _ _ _ hwords hblank
  obtain rfl : "Load_Data!" = base := Option.some.inj (calledAfter_iff.mp hbase)
  obtain rfl : "LoadData" = base' := Option.some.inj (calledAfter_iff.mp hbase')
  obtain ⟨base, hbase, hnone⟩ := hempty _ _ hsign
  exact ⟨hwords, hblank, hiff.mpr (by decide +kernel), hsign, base, hbase, hnone.mp rfl⟩

/-! ## Beginnings of ids -/

/-- The id begins with three letters or digits. -/
structure StartsLettered (id : String) : Prop where
  long : 3 ≤ id.toList.length
  lettered : ∀ c ∈ (idStart id).toList, c.isAlphanum = true

theorem StartsLettered.spelling_eq {id : String} (h : StartsLettered id) :
    spelling (idStart id) = (idStart id).toLower.toList := by
  rw [spelling, List.filter_eq_self.mpr h.lettered, String.toLower, String.toList_map]

theorem StartsLettered.length_spelling {id : String} (h : StartsLettered id) :
    (spelling (idStart id)).length = 3 := by
  rw [h.spelling_eq, String.toLower, String.toList_map, List.length_map, idStart,
    String.toList_ofList, List.length_take]
  exact Nat.min_eq_left h.long

/-- Nodes whose ids begin with different letters and digits have different names and labels,
whatever their labels and files. -/
theorem ne_of_idStart (hm : StartsLettered m.id) (hn : StartsLettered n.id)
    (hne : (idStart m.id).toLower ≠ (idStart n.id).toLower) (ha : of m = .ok a)
    (hb : of n = .ok b) : a ≠ b ∧ a.label ≠ b.label := by
  have hlabel : a.label ≠ b.label := by
    obtain ⟨base, -, ha⟩ := of_eq_ok_iff.mp ha
    obtain ⟨base', -, hb⟩ := of_eq_ok_iff.mp hb
    intro heq
    -- the id comes last, so the last letters and digits are those of the ids
    have hlength := hm.length_spelling.trans hn.length_spelling.symm
    have hid := (List.append_inj' ((label_eq_iff_spelling ha hb).mp heq) hlength).2
    rw [hm.spelling_eq, hn.spelling_eq] at hid
    exact hne (String.toList_injective hid)
  exact ⟨fun heq => hlabel (congrArg label heq), hlabel⟩

/-- A node with a label that ends like the name of another node. -/
def longNode : Node where
  id := "a41c"
  attributes := { label := some "load_b41" }

/-- A node with the beginning of that label. -/
def shortNode : Node where
  id := "b41d"
  attributes := { label := some "load" }

/-- A label that ends like another name does not make the names alike. -/
theorem ne_of_idStart_longNode :
    StartsLettered longNode.id ∧ StartsLettered shortNode.id ∧
    (idStart longNode.id).toLower ≠ (idStart shortNode.id).toLower ∧
    of longNode = .ok ⟨"loadB41A41"⟩ ∧ of shortNode = .ok ⟨"loadB41"⟩ ∧
    (⟨"loadB41A41"⟩ : StepName) ≠ ⟨"loadB41"⟩ ∧ label ⟨"loadB41A41"⟩ ≠ label ⟨"loadB41"⟩ := by
  have hlong : StartsLettered longNode.id := ⟨by decide, List.all_eq_true.mp rfl⟩
  have hshort : StartsLettered shortNode.id := ⟨by decide, List.all_eq_true.mp rfl⟩
  have hne : (idStart longNode.id).toLower ≠ (idStart shortNode.id).toLower := by decide +kernel
  have ha : of longNode = .ok ⟨"loadB41A41"⟩ := eq_ok_of_toOption (by decide +kernel)
  have hb : of shortNode = .ok ⟨"loadB41"⟩ := eq_ok_of_toOption (by decide +kernel)
  exact ⟨hlong, hshort, hne, ha, hb, ne_of_idStart hlong hshort hne ha hb⟩

end StepName

end Pipewright
