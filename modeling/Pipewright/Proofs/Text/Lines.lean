import Mathlib.Algebra.Order.Ring.Nat
import Mathlib.Data.List.Infix
import Pipewright.Text.Pieces

/-!
# Lines told by how they begin

A line that is put together from a word, a character that is in no word, and more can be taken
apart again: two such lines with the same beginning have the same word.  The same goes for numbers,
since no other character is a digit.  Blocks of lines with an empty line between two of them are
the lines of a text, and as far as other lines go they are one block after the other.

* `begins`: a line begins with a text.
* `prefix_of_append_cons_prefix`: the words in front of two lines, one of which begins the other.
* `pieces_append_singleton_append`, `pieces_of_notMem`: the pieces of texts put together.
* `splitOn_filter`, `splitOn_map`: the pieces of what is left or made of a list.
* `feeds`, `length_lines`, `unlines_flatMap_lines`: how many lines texts have, one after the other.
* `decimal_injective`, `eq_of_append_decimal_eq`: numbers in decimal digits.
* `lines_intercalate_unlines`, `lines_intercalate`: the lines of blocks, one text after the other.
* `filter_intercalate`, `flatten_sublist_intercalate`, `sum_map_intercalate`: the blocks with
  something between them.
* `intercalate_append`, `intercalate_prefix`, `intercalate_flatMap`: more blocks behind.
-/

namespace Pipewright.Text

/-! ## Beginnings -/

/-- The line begins with a text. -/
def begins (start line : String) : Bool :=
  start.toList.isPrefixOf line.toList

theorem begins_iff {start line : String} :
    begins start line = true ↔ start.toList <+: line.toList :=
  List.isPrefixOf_iff_prefix

/-- Nothing but the empty text begins the empty line. -/
theorem begins_empty {start : String} (h : start ≠ "") : begins start "" = false := by
  rw [Bool.eq_false_iff, ne_eq, begins_iff, String.toList_empty, List.prefix_nil]
  exact fun hstart => h (String.toList_injective hstart)

/-- A word ends at the first character that is in no word.  So when one text begins another one,
both with a word in front, the words are equal, and so are the characters behind. -/
theorem prefix_of_append_cons_prefix {α : Type} {p : α → Bool} {w v s t : List α} {a b : α}
    (hw : ∀ c ∈ w, p c = true) (hv : ∀ c ∈ v, p c = true) (ha : p a = false) (hb : p b = false)
    (h : w ++ a :: s <+: v ++ b :: t) : w = v ∧ a = b ∧ s <+: t := by
  induction w generalizing v with
  | nil =>
    rcases v with _ | ⟨c, v⟩
    · exact ⟨rfl, List.cons_prefix_cons.mp h⟩
    · obtain ⟨rfl, -⟩ := List.cons_prefix_cons.mp h
      rw [hv a List.mem_cons_self] at ha
      cases ha
  | cons c w ih =>
    rcases v with _ | ⟨c', v⟩
    · obtain ⟨rfl, -⟩ := List.cons_prefix_cons.mp h
      rw [hw c List.mem_cons_self] at hb
      cases hb
    · obtain ⟨rfl, hrest⟩ := List.cons_prefix_cons.mp h
      obtain ⟨rfl, hab⟩ := ih (fun c hc => hw c (List.mem_cons_of_mem _ hc))
        (fun c hc => hv c (List.mem_cons_of_mem _ hc)) hrest
      exact ⟨rfl, hab⟩

/-- Two equal texts with words in front have the same word and the same rest. -/
theorem eq_of_append_cons_eq {α : Type} {p : α → Bool} {w v s t : List α} {a b : α}
    (hw : ∀ c ∈ w, p c = true) (hv : ∀ c ∈ v, p c = true) (ha : p a = false) (hb : p b = false)
    (h : w ++ a :: s = v ++ b :: t) : w = v ∧ a = b ∧ s = t := by
  obtain ⟨rfl, rfl, -⟩ := prefix_of_append_cons_prefix hw hv ha hb ⟨[], by rw [h, List.append_nil]⟩
  exact ⟨rfl, rfl, (List.cons.inj (List.append_cancel_left h)).2⟩

/-- The text starts with a character that is in no word. -/
def Stops (p : Char → Bool) (s : String) : Prop :=
  ∃ a t, s.toList = a :: t ∧ p a = false

theorem Stops.append {p : Char → Bool} {s : String} (h : Stops p s) (t : String) :
    Stops p (s ++ t) := by
  obtain ⟨a, u, hs, ha⟩ := h
  exact ⟨a, u ++ t.toList, by rw [String.toList_append, hs, List.cons_append], ha⟩

/-- What begins a line with a word in front has that word in front, and more that begins the rest of
the line. -/
theorem begins_append_append_iff {p : Char → Bool} {w v s t : String}
    (hw : ∀ c ∈ w.toList, p c = true) (hv : ∀ c ∈ v.toList, p c = true) (hs : Stops p s)
    (ht : Stops p t) : begins (w ++ s) (v ++ t) = true ↔ w = v ∧ begins s t = true := by
  obtain ⟨a, s', hs', ha⟩ := hs
  obtain ⟨b, t', ht', hb⟩ := ht
  rw [begins_iff, begins_iff, String.toList_append, String.toList_append, hs', ht']
  constructor
  · intro h
    obtain ⟨hwv, rfl, hst⟩ := prefix_of_append_cons_prefix hw hv ha hb h
    exact ⟨String.toList_injective hwv, List.cons_prefix_cons.mpr ⟨rfl, hst⟩⟩
  · rintro ⟨rfl, h⟩
    exact (List.prefix_append_right_inj _).mpr h

theorem begins_append_left_iff {s t u : String} :
    begins (s ++ t) (s ++ u) = true ↔ begins t u = true := by
  rw [begins_iff, begins_iff, String.toList_append, String.toList_append,
    List.prefix_append_right_inj]

theorem begins_append_self (s t : String) : begins s (s ++ t) = true := by
  rw [begins_iff, String.toList_append]
  exact List.prefix_append _ _

/-! ## Pieces -/

/-- The pieces of a list hold entries of the list, and no separators. -/
theorem mem_of_mem_splitOn {sep c : Char} {cs w : List Char} (hw : w ∈ cs.splitOn sep)
    (hc : c ∈ w) : c ∈ cs ∧ c ≠ sep := by
  induction cs generalizing w with
  | nil =>
    rw [List.splitOn_nil, List.mem_singleton] at hw
    rw [hw] at hc
    cases hc
  | cons a cs ih =>
    rw [List.splitOn_cons_eq_if_modifyHead] at hw
    split at hw
    · rcases List.mem_cons.mp hw with rfl | hw
      · cases hc
      · exact ⟨List.mem_cons_of_mem _ (ih hw hc).1, (ih hw hc).2⟩
    · next ha =>
      rcases hsplit : cs.splitOn sep with _ | ⟨v, vs⟩
      · exact absurd hsplit (List.splitOn_ne_nil _ _)
      rw [hsplit, List.modifyHead_cons] at hw
      rw [hsplit] at ih
      rcases List.mem_cons.mp hw with rfl | hw
      · rcases List.mem_cons.mp hc with rfl | hc
        · exact ⟨List.mem_cons_self, by simpa using ha⟩
        · have hv := ih List.mem_cons_self hc
          exact ⟨List.mem_cons_of_mem _ hv.1, hv.2⟩
      · have hvs := ih (List.mem_cons_of_mem _ hw) hc
        exact ⟨List.mem_cons_of_mem _ hvs.1, hvs.2⟩

/-- Cutting a list of which entries are dropped, but no separators, is dropping them from the
pieces. -/
theorem splitOn_filter {sep : Char} {p : Char → Bool} (hsep : p sep = true) (cs : List Char) :
    (cs.filter p).splitOn sep = (cs.splitOn sep).map (List.filter p) := by
  induction cs with
  | nil => rfl
  | cons c cs ih =>
    rw [List.splitOn_cons_eq_if_modifyHead]
    by_cases hc : p c = true
    · rw [List.filter_cons_of_pos hc, List.splitOn_cons_eq_if_modifyHead, ih]
      split
      · rfl
      · rcases cs.splitOn sep with _ | ⟨w, ws⟩
        · rfl
        · simp [hc]
    · have hne : ¬ (c == sep) = true := fun heq => hc (by rwa [beq_iff_eq.mp heq])
      rw [List.filter_cons_of_neg hc, ih, if_neg hne]
      rcases cs.splitOn sep with _ | ⟨w, ws⟩
      · rfl
      · simp [hc]

/-- Cutting a list with other entries, of which the same ones are separators, gives the same
pieces with the other entries. -/
theorem splitOn_map {sep : Char} {f : Char → Char} (hsep : ∀ c, f c = sep ↔ c = sep)
    (cs : List Char) : (cs.map f).splitOn sep = (cs.splitOn sep).map (List.map f) := by
  induction cs with
  | nil => rfl
  | cons c cs ih =>
    rw [List.map_cons, List.splitOn_cons_eq_if_modifyHead, List.splitOn_cons_eq_if_modifyHead, ih]
    simp only [beq_iff_eq, hsep]
    split
    · rfl
    · cases cs.splitOn sep <;> rfl

/-- No piece has the separator in it. -/
theorem notMem_of_mem_pieces {sep : Char} {s piece : String} (h : piece ∈ pieces sep s) :
    sep ∉ piece.toList := by
  rw [pieces, List.mem_map] at h
  obtain ⟨w, hw, rfl⟩ := h
  rw [String.toList_ofList]
  exact fun hmem => (mem_of_mem_splitOn hw hmem).2 rfl

/-- The pieces of two texts with the separator between them. -/
theorem pieces_append_singleton_append (sep : Char) (s t : String) :
    pieces sep (s ++ String.singleton sep ++ t) = pieces sep s ++ pieces sep t := by
  simp [pieces, List.splitOn_append_cons_self]

theorem pieces_of_notMem {sep : Char} {s : String} (h : sep ∉ s.toList) :
    pieces sep s = [s] := by
  rw [pieces, List.splitOn_eq_singleton h, List.map_singleton, String.ofList_toList]

/-! ## Counting lines -/

theorem length_splitOn {α : Type} [BEq α] [LawfulBEq α] (sep : α) (cs : List α) :
    (cs.splitOn sep).length = cs.count sep + 1 := by
  induction cs with
  | nil => simp
  | cons a cs ih =>
    rw [List.splitOn_cons_eq_if_modifyHead, List.count_cons]
    split
    · rw [List.length_cons, ih]
    · rw [List.length_modifyHead, ih, Nat.add_zero]

/-- The number of line feeds in a text. -/
def feeds (s : String) : Nat :=
  s.toList.count '\n'

/-- A text has one line more than it has line feeds. -/
theorem length_lines (s : String) : (lines s).length = feeds s + 1 := by
  rw [lines, pieces, List.length_map, length_splitOn, feeds]

theorem notMem_of_mem_lines {s line : String} (h : line ∈ lines s) : '\n' ∉ line.toList :=
  notMem_of_mem_pieces h

theorem lines_ne_nil (s : String) : lines s ≠ [] := by
  rw [← List.length_pos_iff, length_lines]
  exact Nat.succ_pos _

/-! ## Numbers -/

theorem toList_decimal (n : Nat) : (decimal n).toList = Nat.toDigits 10 n :=
  String.toList_ofList

theorem isDigit_of_mem_decimal {n : Nat} {c : Char} (h : c ∈ (decimal n).toList) :
    c.isDigit = true := by
  rw [toList_decimal] at h
  exact Nat.isDigit_of_mem_toDigits (by decide) (by decide) h

/-- The digits of a number tell it. -/
theorem decimal_injective : Function.Injective decimal := by
  intro m n h
  have hdigits : Nat.toDigits 10 m = Nat.toDigits 10 n := by
    rw [← toList_decimal, ← toList_decimal, h]
  rw [← @Nat.ofDigitChars_ten_toDigits m, ← @Nat.ofDigitChars_ten_toDigits n, hdigits]

/-- A number behind a character that is no digit is told by the text, and so is what stands in front
of that character. -/
theorem eq_of_append_decimal_eq {s t : String} {c : Char} {m n : Nat} (hc : c.isDigit = false)
    (h : s ++ String.singleton c ++ decimal m = t ++ String.singleton c ++ decimal n) :
    s = t ∧ m = n := by
  have hdigit : ∀ k, ∀ a ∈ (decimal k).toList.reverse, a.isDigit = true := fun k a ha =>
    isDigit_of_mem_decimal (List.mem_reverse.mp ha)
  have hreverse := congrArg (fun text : String => text.toList.reverse) h
  simp only [String.toList_append, String.toList_singleton, List.reverse_append,
    List.reverse_singleton, List.singleton_append] at hreverse
  obtain ⟨hnumber, -, htext⟩ := eq_of_append_cons_eq (hdigit m) (hdigit n) hc hc hreverse
  exact ⟨String.toList_injective (List.reverse_injective htext),
    decimal_injective (String.toList_injective (List.reverse_injective hnumber))⟩

/-! ## Blocks of lines -/

theorem unlines_append {ls ms : List String} (hls : ls ≠ []) (hms : ms ≠ []) :
    unlines (ls ++ ms) = unlines ls ++ "\n" ++ unlines ms :=
  String.intercalate_append_of_ne_nil hls hms

/-- Texts put one under the other make the text of all their lines. -/
theorem unlines_flatMap_lines (ls : List String) : unlines (ls.flatMap lines) = unlines ls := by
  induction ls with
  | nil => rfl
  | cons l rest ih =>
    rcases rest with _ | ⟨m, rest⟩
    · rw [List.flatMap_singleton, unlines_lines, unlines, String.intercalate_singleton]
    · have hrest : (m :: rest).flatMap lines ≠ [] := by
        rw [List.flatMap_cons]
        exact List.append_ne_nil_of_left_ne_nil (lines_ne_nil m) _
      rw [List.flatMap_cons, unlines_append (lines_ne_nil l) hrest, unlines_lines, ih]
      exact String.intercalate_cons_cons.symm

/-- What stands between lists is passed over by a filter that lets none of it through. -/
theorem filter_intercalate {α : Type} {p : α → Bool} {sep : List α} (h : ∀ a ∈ sep, p a = false)
    (blocks : List (List α)) : (sep.intercalate blocks).filter p = blocks.flatten.filter p := by
  have hsep : sep.filter p = [] :=
    List.filter_eq_nil_iff.mpr fun a ha => Bool.eq_false_iff.mp (h a ha)
  induction blocks with
  | nil => rfl
  | cons b rest ih =>
    rcases rest with _ | ⟨b', rest⟩
    · rw [List.intercalate_singleton, List.flatten_singleton]
    · simp only [List.intercalate_cons_cons, List.filter_append, hsep, ih, List.append_nil,
        List.flatten_cons]

theorem flatten_sublist_intercalate {α : Type} (sep : List α) (blocks : List (List α)) :
    blocks.flatten.Sublist (sep.intercalate blocks) := by
  induction blocks with
  | nil => exact List.Sublist.refl _
  | cons b rest ih =>
    rcases rest with _ | ⟨b', rest⟩
    · rw [List.intercalate_singleton, List.flatten_singleton]
    · rw [List.intercalate_cons_cons, List.flatten_cons]
      exact (List.sublist_append_left b sep).append ih

theorem intercalate_sublist {α : Type} (sep : List α) {blocks blocks' : List (List α)}
    (h : blocks.Sublist blocks') : (sep.intercalate blocks).Sublist (sep.intercalate blocks') := by
  induction h with
  | slnil => exact List.Sublist.refl _
  | @cons blocks rest b h ih =>
    rcases rest with _ | ⟨b', rest⟩
    · rw [List.sublist_nil.mp h]
      exact List.nil_sublist _
    · rw [List.intercalate_cons_cons]
      exact ih.trans (List.sublist_append_right _ _)
  | @cons_cons blocks rest b h ih =>
    rcases blocks with _ | ⟨b', blocks⟩
    · rcases rest with _ | ⟨b'', rest⟩
      · exact List.Sublist.refl _
      · rw [List.intercalate_singleton, List.intercalate_cons_cons, List.append_assoc]
        exact List.sublist_append_left _ _
    · rcases rest with _ | ⟨b'', rest⟩
      · cases h
      · rw [List.intercalate_cons_cons, List.intercalate_cons_cons]
        exact (List.Sublist.refl _).append ih

theorem mem_of_mem_intercalate {α : Type} [DecidableEq α] {sep : List α} {blocks : List (List α)}
    {a : α} (h : a ∈ sep.intercalate blocks) : a ∈ sep ∨ a ∈ blocks.flatten := by
  by_cases ha : a ∈ sep
  · exact .inl ha
  · have hmem : a ∈ (sep.intercalate blocks).filter fun b => b ∉ sep :=
      List.mem_filter.mpr ⟨h, by simpa using ha⟩
    rw [filter_intercalate (by simp)] at hmem
    exact .inr (List.mem_filter.mp hmem).1

/-- What is counted in blocks with an entry between two of them: the blocks and the entries between
them. -/
theorem sum_map_intercalate {α : Type} (f : α → Nat) (a : α) (blocks : List (List α)) :
    (([a].intercalate blocks).map f).sum =
      (blocks.map fun b => (b.map f).sum).sum + (blocks.length - 1) * f a := by
  induction blocks with
  | nil => simp
  | cons b rest ih =>
    rcases rest with _ | ⟨b', rest⟩
    · simp
    · have hlength : (b :: b' :: rest).length - 1 = ((b' :: rest).length - 1) + 1 := rfl
      rw [List.intercalate_cons_cons, List.map_append, List.sum_append, List.map_append,
        List.sum_append, ih, hlength, Nat.add_mul, List.map_cons (l := b' :: rest), List.sum_cons,
        List.map_singleton, List.sum_singleton]
      omega

theorem intercalate_ne_nil {α : Type} {sep : List α} {blocks : List (List α)} (hne : blocks ≠ [])
    (h : ∀ b ∈ blocks, b ≠ []) : sep.intercalate blocks ≠ [] := by
  obtain ⟨b, hb⟩ := List.exists_mem_of_ne_nil blocks hne
  intro hnil
  have hsub := flatten_sublist_intercalate sep blocks
  rw [hnil, List.sublist_nil, List.flatten_eq_nil_iff] at hsub
  exact h b hb (hsub b hb)

/-- Blocks of lines with an empty line between two of them are the text of their lines. -/
theorem intercalate_unlines {blocks : List (List String)} (h : ∀ b ∈ blocks, b ≠ []) :
    String.intercalate "\n\n" (blocks.map unlines) = unlines ([""].intercalate blocks) := by
  induction blocks with
  | nil => rfl
  | cons b rest ih =>
    rcases rest with _ | ⟨b', rest⟩
    · rw [List.map_singleton, String.intercalate_singleton, List.intercalate_singleton]
    · have hrest := ih fun c hc => h c (List.mem_cons_of_mem _ hc)
      have hne : [""].intercalate (b' :: rest) ≠ [] :=
        intercalate_ne_nil (List.cons_ne_nil _ _) fun c hc => h c (List.mem_cons_of_mem _ hc)
      have hfeeds : ("\n\n" : String) = "\n" ++ ("" ++ "\n") := rfl
      rw [List.map_cons] at hrest
      rw [List.map_cons, List.map_cons, String.intercalate_cons_cons, hrest,
        List.intercalate_cons_cons, List.append_assoc,
        unlines_append (h b List.mem_cons_self) (by simp), unlines_append (by simp) hne, hfeeds]
      simp only [unlines, String.intercalate_singleton, String.append_assoc]

/-- The lines of blocks with an empty line between two of them. -/
theorem lines_intercalate_unlines {blocks : List (List String)} (hne : blocks ≠ [])
    (h : ∀ b ∈ blocks, b ≠ []) (hline : ∀ b ∈ blocks, ∀ l ∈ b, '\n' ∉ l.toList) :
    lines (String.intercalate "\n\n" (blocks.map unlines)) = [""].intercalate blocks := by
  rw [intercalate_unlines h]
  refine lines_unlines (intercalate_ne_nil hne h) fun l hl => ?_
  rcases mem_of_mem_intercalate hl with hl | hl
  · rw [List.mem_singleton.mp hl]
    exact List.not_mem_nil
  · obtain ⟨b, hb, hl⟩ := List.mem_flatten.mp hl
    exact hline b hb l hl

/-- The lines of texts with an empty line between two of them. -/
theorem lines_intercalate {texts : List String} (hne : texts ≠ []) :
    lines (String.intercalate "\n\n" texts) = [""].intercalate (texts.map lines) := by
  have hsame : (texts.map lines).map unlines = texts := by
    rw [List.map_map]
    exact (List.map_congr_left fun s _ => unlines_lines s).trans (List.map_id _)
  have hblock : ∀ b ∈ texts.map lines, b ≠ [] ∧ ∀ line ∈ b, '\n' ∉ line.toList := by
    intro b hb
    obtain ⟨s, -, rfl⟩ := List.mem_map.mp hb
    exact ⟨lines_ne_nil s, fun line hline => notMem_of_mem_lines hline⟩
  conv_lhs => rw [← hsame]
  exact lines_intercalate_unlines (by simpa using hne) (fun b hb => (hblock b hb).1)
    fun b hb => (hblock b hb).2

/-- The lines of texts put one under the other. -/
theorem lines_unlines_eq_flatMap {ls : List String} (hne : ls ≠ []) :
    lines (unlines ls) = ls.flatMap lines := by
  rw [← unlines_flatMap_lines]
  refine lines_unlines ?_ fun line hline => ?_
  · obtain ⟨l, hl⟩ := List.exists_mem_of_ne_nil ls hne
    obtain ⟨line, hline⟩ := List.exists_mem_of_ne_nil _ (lines_ne_nil l)
    exact List.ne_nil_of_mem (List.mem_flatMap.mpr ⟨l, hl, hline⟩)
  · obtain ⟨l, -, hline⟩ := List.mem_flatMap.mp hline
    exact notMem_of_mem_lines hline

/-! ## Putting more behind -/

/-- Blocks are the first one and the others with something in front of each. -/
theorem intercalate_cons_eq_append {α : Type} (sep b : List α) (rest : List (List α)) :
    sep.intercalate (b :: rest) = b ++ rest.flatMap fun b' => sep ++ b' := by
  induction rest generalizing b with
  | nil => rw [List.intercalate_singleton, List.flatMap_nil, List.append_nil]
  | cons b' rest ih =>
    rw [List.intercalate_cons_cons, ih, List.flatMap_cons, List.append_assoc, List.append_assoc]

theorem intercalate_append {α : Type} (sep : List α) {blocks more : List (List α)}
    (hblocks : blocks ≠ []) (hmore : more ≠ []) :
    sep.intercalate (blocks ++ more) = sep.intercalate blocks ++ sep ++ sep.intercalate more := by
  obtain ⟨b, rest, rfl⟩ := List.exists_cons_of_ne_nil hblocks
  obtain ⟨b', more, rfl⟩ := List.exists_cons_of_ne_nil hmore
  rw [List.cons_append]
  simp only [intercalate_cons_eq_append, List.flatMap_append, List.flatMap_cons, List.append_assoc]

/-- More blocks leave what is made of the first ones in front. -/
theorem intercalate_prefix {α : Type} (sep : List α) {blocks blocks' : List (List α)}
    (h : blocks <+: blocks') : sep.intercalate blocks <+: sep.intercalate blocks' := by
  obtain ⟨more, rfl⟩ := h
  rcases blocks with _ | ⟨b, rest⟩
  · exact List.nil_prefix
  · rw [List.cons_append, intercalate_cons_eq_append, intercalate_cons_eq_append,
      List.flatMap_append, ← List.append_assoc]
    exact List.prefix_append _ _

/-- Blocks of several lists, put together list by list. -/
theorem intercalate_flatMap {α β : Type} (sep : List α) {l : List β} {f : β → List (List α)}
    (h : ∀ b ∈ l, f b ≠ []) :
    sep.intercalate (l.flatMap f) = sep.intercalate (l.map fun b => sep.intercalate (f b)) := by
  induction l with
  | nil => rfl
  | cons b rest ih =>
    obtain ⟨hb, hrest⟩ := List.forall_mem_cons.mp h
    rcases rest with _ | ⟨b', rest⟩
    · rw [List.flatMap_singleton, List.map_singleton, List.intercalate_singleton]
    · have hne : (b' :: rest).flatMap f ≠ [] := by
        rw [List.flatMap_cons]
        exact List.append_ne_nil_of_left_ne_nil (hrest b' List.mem_cons_self) _
      rw [List.flatMap_cons, intercalate_append sep hb hne, ih hrest]
      exact (List.intercalate_cons_of_ne_nil (by simp)).symm

/-- A text that is put together has characters if one of its parts has any. -/
theorem intercalate_ne_empty (sep : String) {texts : List String} {s : String} (hs : s ∈ texts)
    (hne : s ≠ "") : String.intercalate sep texts ≠ "" := by
  intro hempty
  have hsub : s.toList.Sublist (String.intercalate sep texts).toList := by
    rw [String.toList_intercalate]
    exact (List.sublist_flatten_of_mem (List.mem_map_of_mem hs)).trans
      (flatten_sublist_intercalate _ _)
  rw [hempty, String.toList_empty, List.sublist_nil] at hsub
  exact hne (String.toList_eq_nil_iff.mp hsub)

end Pipewright.Text
