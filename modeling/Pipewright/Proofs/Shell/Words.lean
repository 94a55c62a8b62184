import Mathlib.Data.List.Forall2
import Pipewright.Proofs.Text.Lines
import Pipewright.Shell.Word

/-!
# Command lines word by word

Outside quotes a reader of a command line takes characters as they are, up to a blank, a single
quote or a backslash.  So a text without special characters is one word, a quoted value is one word,
and a line of such texts with a blank between two of them is read text by text.

In the other direction, nothing is made longer by reading it: a quote or a backslash in a line is
missing from its words.  So a text that is read as one word, unchanged, has none.

* `special`, `Plain`, `PlainWord`: texts that a shell takes as they are.
* `ReadsWord`: a text that is one word, whatever follows.
* `Reads`, `reads_intercalate`: lines that are read text by text.
* `weight_wordsFrom`: how long the words of a line can be.
* `stays_of_words`: what a word has that is read as it is.
-/

namespace Pipewright.Shell

/-! ## Characters -/

/-- A character that a reader takes as it is, outside quotes. -/
def stays (c : Char) : Bool :=
  !isBlank c && c != '\'' && c != '\\'

/-- The characters that mean something to a shell, in some place or other. -/
def special : List Char :=
  "|&;<>()$`\\\"' \t\n*?[]#~=%!\x7b\x7d^".toList

/-- A text in which no character means anything to a shell. -/
def Plain (s : String) : Prop :=
  ∀ c ∈ s.toList, c ∉ special

instance (s : String) : Decidable (Plain s) := List.decidableBAll _ _

/-- A text that is a word of a command line as it is. -/
structure PlainWord (s : String) : Prop where
  plain : Plain s
  ne_empty : s ≠ ""

instance (s : String) : Decidable (PlainWord s) :=
  decidable_of_iff (Plain s ∧ s ≠ "") ⟨fun h => ⟨h.1, h.2⟩, fun h => ⟨h.plain, h.ne_empty⟩⟩

theorem stays_of_notMem_special {c : Char} (h : c ∉ special) : stays c = true := by
  by_contra hc
  have hcases : c = ' ' ∨ c = '\t' ∨ c = '\n' ∨ c = '\'' ∨ c = '\\' := by
    simpa [stays, isBlank, or_assoc, imp_iff_not_or] using hc
  rcases hcases with rfl | rfl | rfl | rfl | rfl <;> exact h (by decide)

theorem Plain.stays {s : String} (h : Plain s) : ∀ c ∈ s.toList, stays c = true :=
  fun c hc => stays_of_notMem_special (h c hc)

/-! ## Reading characters -/

variable {c : Char} {word cs rest : List Char}

theorem wordsFrom_within_cons (h : stays c = true) :
    wordsFrom (.within word) (c :: rest) = wordsFrom (.within (word ++ [c])) rest := by
  simp only [stays, Bool.and_eq_true, Bool.not_eq_true', bne_iff_ne] at h
  rw [wordsFrom, if_neg (by simp [h.1.1]), WordState.extend, if_neg h.1.2, if_neg h.2]

/-- A word begins where the first character stands that is no blank. -/
theorem wordsFrom_between_cons (h : isBlank c = false) :
    wordsFrom .between (c :: rest) = wordsFrom (.within []) (c :: rest) := by
  rw [wordsFrom, wordsFrom, if_neg (by simp [h]), if_neg (by simp [h])]

theorem wordsFrom_within_append (h : ∀ c ∈ cs, stays c = true) :
    wordsFrom (.within word) (cs ++ rest) = wordsFrom (.within (word ++ cs)) rest := by
  induction cs generalizing word with
  | nil => rw [List.nil_append, List.append_nil]
  | cons c cs ih =>
    obtain ⟨hc, hcs⟩ := List.forall_mem_cons.mp h
    rw [List.cons_append, wordsFrom_within_cons hc, ih hcs, List.append_assoc,
      List.singleton_append]

/-- A quoted value goes on with the word as it is. -/
theorem wordsFrom_within_quote (value : String) :
    wordsFrom (.within word) ((quote value).toList ++ rest) =
      wordsFrom (.within (word ++ value.toList)) rest := by
  have hquote : isBlank '\'' = false := by decide
  rw [quote, String.toList_ofList, List.append_assoc, List.append_assoc, List.singleton_append,
    List.singleton_append, wordsFrom, if_neg (by simp [hquote]), WordState.extend, if_pos rfl,
    wordsFrom_quoted]

/-! ## One word -/

/-- The text is one word, whatever follows. -/
def ReadsWord (text word : String) : Prop :=
  ∀ rest, wordsFrom .between (text.toList ++ rest) = wordsFrom (.within word.toList) rest

theorem readsWord_of_stays {s : String} (h : ∀ c ∈ s.toList, stays c = true) (hne : s ≠ "") :
    ReadsWord s s := by
  intro rest
  obtain ⟨c, cs, hcs⟩ := List.exists_cons_of_ne_nil (mt String.toList_eq_nil_iff.mp hne)
  have hblank : isBlank c = false := by
    have hc := h c (by rw [hcs]; exact List.mem_cons_self)
    simp only [stays, Bool.and_eq_true, Bool.not_eq_true'] at hc
    exact hc.1.1
  have hwithin : wordsFrom (.within []) (s.toList ++ rest) = wordsFrom (.within s.toList) rest :=
    wordsFrom_within_append h
  rw [hcs, List.cons_append] at hwithin
  rw [hcs, List.cons_append, wordsFrom_between_cons hblank, hwithin]

theorem readsWord_quote (value : String) : ReadsWord (quote value) value := by
  intro rest
  have hquote : (quote value).toList ++ rest =
      ('\'' :: (value.toList.flatMap quoteChar ++ ['\''])) ++ rest := by
    simp [quote]
  have hwithin : wordsFrom (.within []) ((quote value).toList ++ rest) =
      wordsFrom (.within value.toList) rest := wordsFrom_within_quote value
  rw [hquote, List.cons_append] at hwithin
  rw [hquote, List.cons_append, wordsFrom_between_cons (by decide), hwithin]

/-- A value behind a key and an equals sign belongs to the same word. -/
theorem readsWord_assignment {key : String} (value : String) (h : Plain key) :
    ReadsWord (key ++ "=" ++ quote value) (key ++ "=" ++ value) := by
  intro rest
  have hkey : ReadsWord (key ++ "=") (key ++ "=") := by
    refine readsWord_of_stays (fun c hc => ?_) (by simp)
    rw [String.toList_append, List.mem_append] at hc
    obtain hc | hc := hc
    · exact h.stays c hc
    · rw [List.mem_singleton.mp hc]
      decide
  rw [String.toList_append, List.append_assoc, hkey, wordsFrom_within_quote,
    String.toList_append (t := value)]

/-! ## Several words -/

/-- The text is a line of these words, and also when a blank and more follow. -/
structure Reads (text : String) (ws : List String) : Prop where
  words_eq : words text = some ws
  words_append : ∀ blank, isBlank blank = true → ∀ rest : String,
    words (text ++ (String.singleton blank ++ rest)) = (words rest).map (ws ++ ·)

theorem ReadsWord.reads {text word : String} (h : ReadsWord text word) : Reads text [word] where
  words_eq := by
    have hword := h []
    rw [List.append_nil] at hword
    rw [words, hword, wordsFrom, Option.map_some, List.map_singleton, String.ofList_toList]
  words_append := by
    intro blank hblank rest
    rw [words, words, String.toList_append, String.toList_append, String.toList_singleton,
      List.singleton_append, h, wordsFrom, if_pos hblank, Option.map_map, Option.map_map]
    refine Option.map_congr fun ws _ => ?_
    simp

theorem Reads.append {text text' : String} {ws ws' : List String} (h : Reads text ws)
    (h' : Reads text' ws') : Reads (text ++ (" " ++ text')) (ws ++ ws') where
  words_eq := by
    have hspace : " " = String.singleton ' ' := rfl
    rw [hspace, h.words_append ' ' (by decide), h'.words_eq, Option.map_some]
  words_append := by
    intro blank hblank rest
    have hspace : " " = String.singleton ' ' := rfl
    rw [hspace, String.append_assoc, String.append_assoc, h.words_append ' ' (by decide),
      h'.words_append blank hblank, Option.map_map]
    refine Option.map_congr fun vs _ => ?_
    simp

/-- Texts with a blank between two of them are read text by text. -/
theorem reads_intercalate {texts : List String} {wss : List (List String)}
    (h : List.Forall₂ Reads texts wss) (hne : texts ≠ []) :
    Reads (String.intercalate " " texts) wss.flatten := by
  induction h with
  | nil => exact absurd rfl hne
  | @cons text ws texts wss htext htexts ih =>
    rcases texts with _ | ⟨text', texts⟩
    · cases htexts
      simpa using htext
    · rw [String.intercalate_cons_cons, List.flatten_cons, String.append_assoc]
      exact htext.append (ih (List.cons_ne_nil _ _))

/-! ## How long words can be -/

/-- How many characters a reader has taken for the word that it stands in. -/
def WordState.taken : WordState → Nat
  | .between => 0
  | .within word | .quoted word => word.length
  | .escaped word => word.length + 1

@[simp] theorem WordState.taken_between : between.taken = 0 := rfl
@[simp] theorem WordState.taken_within (word : List Char) : (within word).taken = word.length := rfl
@[simp] theorem WordState.taken_quoted (word : List Char) : (quoted word).taken = word.length := rfl
@[simp] theorem WordState.taken_escaped (word : List Char) :
    (escaped word).taken = word.length + 1 := rfl

theorem WordState.taken_extend_le (word : List Char) (c : Char) :
    (WordState.extend word c).taken ≤ word.length + 1 := by
  rw [extend]
  split
  · simp
  · split <;> simp

/-- The number of characters of words, with one more for each word. -/
def weight (ws : List (List Char)) : Nat :=
  (ws.map fun w => w.length + 1).sum

/-- Reading makes nothing longer, when the end of a line counts as one more character. -/
theorem weight_wordsFrom {state : WordState} {ws : List (List Char)}
    (h : wordsFrom state cs = some ws) : weight ws ≤ state.taken + cs.length + 1 := by
  fun_induction wordsFrom state cs generalizing ws with
  | case1 | case2 | case4 =>
    cases h
    simp [weight]
  | case3 => cases h
  | case5 c cs _ ih =>
    have hle := ih h
    simp only [WordState.taken_between, List.length_cons] at hle ⊢
    omega
  | case6 c cs _ ih =>
    have hle := ih h
    have hextend := WordState.taken_extend_le [] c
    simp only [WordState.taken_between, List.length_cons, List.length_nil] at hextend ⊢
    omega
  | case7 word c cs _ ih =>
    obtain ⟨vs, hvs, rfl⟩ := Option.map_eq_some_iff.mp h
    have hle := ih hvs
    simp only [weight, WordState.taken_between, WordState.taken_within, List.length_cons,
      List.map_cons, List.sum_cons] at hle ⊢
    omega
  | case8 word c cs _ ih =>
    have hle := ih h
    have hextend := WordState.taken_extend_le word c
    simp only [WordState.taken_within, List.length_cons]
    omega
  | case9 word c cs ih =>
    have hle := ih h
    have hnext : (if c = '\'' then WordState.within word else .quoted (word ++ [c])).taken ≤
        word.length + 1 := by split <;> simp
    simp only [WordState.taken_quoted, List.length_cons]
    omega
  | case10 word c cs ih =>
    have hle := ih h
    simp only [WordState.taken_within, WordState.taken_escaped, List.length_cons,
      List.length_append, List.length_nil] at hle ⊢
    omega

/-- Behind a backslash, a reader has lost one character, unless the line is at its end. -/
theorem weight_wordsFrom_escaped {word : List Char} {ws : List (List Char)}
    (h : wordsFrom (.escaped word) (c :: cs) = some ws) :
    weight ws ≤ word.length + (c :: cs).length + 1 := by
  have hle : weight ws ≤ (WordState.within (word ++ [c])).taken + cs.length + 1 :=
    weight_wordsFrom h
  simp only [WordState.taken_within, List.length_cons, List.length_append, List.length_nil]
    at hle ⊢
  omega

/-- When a text is read as it is into the word that a reader stands in, and the rest of the line
loses nothing either, then the text has no blanks and no quotes, and no backslashes but at its
end. -/
theorem stays_of_wordsFrom {ws : List (List Char)}
    (h : wordsFrom (.within word) (cs ++ rest) = some ((word ++ cs) :: ws))
    (hrest : rest.length ≤ weight ws) :
    (∀ c ∈ cs, isBlank c = false ∧ c ≠ '\'') ∧ ∀ c ∈ cs.dropLast, c ≠ '\\' := by
  induction cs generalizing word with
  | nil => exact ⟨List.forall_mem_nil _, List.forall_mem_nil _⟩
  | cons c cs ih =>
    have hweight : word.length + cs.length + rest.length + 2 ≤
        weight ((word ++ c :: cs) :: ws) := by
      simp only [weight, List.map_cons, List.sum_cons, List.length_append, List.length_cons]
        at hrest ⊢
      omega
    rw [List.cons_append, wordsFrom] at h
    split at h
    · -- At a blank the word ends, and it lacks the blank.
      obtain ⟨vs, -, hvs⟩ := Option.map_eq_some_iff.mp h
      have hword := congrArg List.length (List.cons.inj hvs).1
      simp only [List.length_append, List.length_cons] at hword
      omega
    next hblank =>
    rw [WordState.extend] at h
    split at h
    · -- A quote is lost.
      have hle := weight_wordsFrom h
      simp only [WordState.taken_quoted, List.length_append] at hle
      omega
    next hquote =>
    have hc : isBlank c = false ∧ c ≠ '\'' := ⟨by simpa using hblank, hquote⟩
    split at h
    · next hbackslash =>
      rcases cs with _ | ⟨c', cs⟩
      · exact ⟨List.forall_mem_singleton.mpr hc, List.forall_mem_nil _⟩
      · -- So is a backslash with something behind it.
        rw [List.cons_append] at h
        have hle := weight_wordsFrom_escaped h
        simp only [List.length_cons, List.length_append] at hle hweight
        omega
    · next hbackslash =>
      rw [List.append_cons word c cs] at h
      obtain ⟨hall, hinner⟩ := ih h
      refine ⟨List.forall_mem_cons.mpr ⟨hc, hall⟩, ?_⟩
      rcases cs with _ | ⟨c', cs⟩
      · exact List.forall_mem_nil _
      · exact List.forall_mem_cons.mpr ⟨hbackslash, hinner⟩

/-- A text that is the first word of a line, as it is, when no word of the line has lost anything:
it has no blanks and no quotes, and no backslashes but at its end. -/
theorem stays_of_words {file : String} {more : List String}
    (h : words (String.intercalate " " (file :: more)) = some (file :: more)) :
    (∀ c ∈ file.toList, isBlank c = false ∧ c ≠ '\'') ∧
      ∀ c ∈ file.toList.dropLast, c ≠ '\\' := by
  set behind := (more.map String.toList).flatMap fun word => [' '] ++ word with hbehind
  have hline : (String.intercalate " " (file :: more)).toList = file.toList ++ behind := by
    rw [String.toList_intercalate, List.map_cons, Text.intercalate_cons_eq_append]
    rfl
  have hweight : weight (more.map String.toList) = behind.length := by
    rw [hbehind, List.length_flatMap, weight]
    refine congrArg List.sum (List.map_congr_left fun word _ => ?_)
    rw [List.singleton_append, List.length_cons]
  obtain ⟨ws, hws, hsame⟩ := Option.map_eq_some_iff.mp h
  have hwords : ws = file.toList :: more.map String.toList := by
    rw [← List.map_cons, ← hsame, List.map_map]
    exact ((List.map_congr_left fun w _ => String.toList_ofList).trans (List.map_id' _)).symm
  rw [hline, hwords] at hws
  rcases hfile : file.toList with _ | ⟨c, cs⟩
  · exact ⟨List.forall_mem_nil _, List.forall_mem_nil _⟩
  rw [hfile, List.cons_append] at hws
  rcases hblank : isBlank c with _ | _
  · rw [wordsFrom_between_cons hblank, ← List.cons_append] at hws
    exact stays_of_wordsFrom hws hweight.ge
  · -- A blank in front of the first word is lost.
    rw [wordsFrom, if_pos hblank] at hws
    have hle := weight_wordsFrom hws
    rw [weight, List.map_cons, List.sum_cons, ← weight, hweight, WordState.taken_between,
      List.length_append, List.length_cons] at hle
    omega

end Pipewright.Shell
