import Pipewright.Json.Cursor

/-!
# What readers read

A reader that is put before a text and more either stops inside or goes on to what is left.  To read
a text for a result means to go on behind it with that result, wherever the text stands.  Which text
that is may depend on what follows, since a number ends only where no digit follows.

* `Blanks`: texts of blanks alone.
* `Cursor.facing`: the cursor before a text.
* `Reader.Reads`: the reader takes a text for a result.
* `Reader.Reads.bind`, `Reader.Reads.peek`, `Reader.Reads.advance`: the steps of a reader.
* `Reader.Rounds`, `Reader.Rounds.reads`: what is read in rounds.
* `Reader.run_of_reads`: a whole text.
-/

namespace Pipewright.Json

/-! ## Bytes -/

/-- The bytes of a text come one character after the other. -/
theorem byteCount_append (cs ds : List Char) :
    byteCount (cs ++ ds) = byteCount cs + byteCount ds := by
  have hstart : ∀ (n : Nat) (cs : List Char),
      cs.foldl (fun n c => n + c.utf8Size) n = n + byteCount cs := by
    intro n cs
    induction cs generalizing n with
    | nil => rfl
    | cons c cs ih =>
      have hc := ih (0 + c.utf8Size)
      rw [byteCount, List.foldl_cons, List.foldl_cons, ih, hc, Nat.zero_add, Nat.add_assoc]
  rw [byteCount, List.foldl_append, hstart]
  rfl

theorem byteCount_cons (c : Char) (cs : List Char) :
    byteCount (c :: cs) = c.utf8Size + byteCount cs := by
  rw [← List.singleton_append, byteCount_append]
  exact congrArg (· + byteCount cs) (Nat.zero_add _)

theorem byteCount_pos {cs : List Char} (h : cs ≠ []) : 0 < byteCount cs := by
  cases cs with
  | nil => exact absurd rfl h
  | cons c cs =>
    rw [byteCount_cons]
    exact Nat.add_pos_left c.utf8Size_pos _

/-- Texts of one-byte characters have as many bytes as characters. -/
theorem byteCount_eq_length {cs : List Char} (h : ∀ c ∈ cs, c.utf8Size = 1) :
    byteCount cs = cs.length := by
  induction cs with
  | nil => rfl
  | cons c cs ih =>
    rw [byteCount_cons, h c List.mem_cons_self, ih fun d hd => h d (List.mem_cons_of_mem _ hd),
      List.length_cons, Nat.add_comm]

/-- The text has nothing but blanks. -/
def Blanks (cs : List Char) : Prop := ∀ x ∈ cs, x ∈ [' ', '\t', '\n', '\r']

theorem blanks_nil : Blanks [] := List.forall_mem_nil _

/-- A text that starts with another character does not start with a blank. -/
theorem not_blank_cons {x : Char} {text : List Char} (hx : x ∉ [' ', '\t', '\n', '\r']) :
    ∀ y ∈ (x :: text).head?, y ∉ [' ', '\t', '\n', '\r'] :=
  fun _ hy => Option.some.inj hy ▸ hx

/-- The cursor before a text, so many bytes behind the start. -/
def Cursor.facing (offset : Nat) (rest : List Char) : Cursor :=
  ⟨rest, offset, offset + byteCount rest⟩

@[simp] theorem Cursor.rest_facing (offset : Nat) (rest : List Char) :
    (facing offset rest).rest = rest := rfl

@[simp] theorem Cursor.left_facing (offset : Nat) (rest : List Char) :
    (facing offset rest).left = byteCount rest :=
  Nat.add_sub_cancel_left _ _

/-- The start of a text is before it. -/
theorem Cursor.start_eq_facing (cs : List Char) : start cs = facing 0 cs := by
  rw [facing, Nat.zero_add]
  rfl

/-- Behind blanks the cursor is before what is no blank. -/
theorem Cursor.skipBlanks_facing {cs text : List Char} (hcs : Blanks cs)
    (hnext : ∀ x ∈ text.head?, x ∉ [' ', '\t', '\n', '\r']) (offset : Nat) :
    (facing offset (cs ++ text)).skipBlanks = facing (offset + byteCount cs) text := by
  have hnone : text.takeWhile (· ∈ [' ', '\t', '\n', '\r']) = [] := by
    cases text with
    | nil => rfl
    | cons x rest => exact List.takeWhile_cons_of_neg (by simpa using hnext x rfl)
  have htaken : (cs ++ text).takeWhile (· ∈ [' ', '\t', '\n', '\r']) = cs := by
    rw [List.takeWhile_append_of_pos fun x hx => decide_eq_true (hcs x hx), hnone,
      List.append_nil]
  have hsize : ∀ x ∈ [' ', '\t', '\n', '\r'], x.utf8Size = 1 := by simp [Char.utf8Size]
  have hbytes : byteCount cs = cs.length := byteCount_eq_length fun x hx => hsize x (hcs x hx)
  rw [skipBlanks, rest_facing, htaken, List.drop_left, facing, facing, byteCount_append, hbytes,
    ← Nat.add_assoc]

namespace Reader

variable {α β σ : Type} {r : Reader α} {a : α} {b : β} {text more : List Char}

/-- Before `more`, the reader takes the text for the result, and stops behind it. -/
def Reads (r : Reader α) (text : List Char) (a : α) (more : List Char) : Prop :=
  ∀ offset, r (.facing offset (text ++ more)) = .ok (a, .facing (offset + byteCount text) more)

/-! ## Steps -/

/-- The second of two readers starts with the result of the first, and where that has stopped. -/
theorem bind_of_ok {c c' : Cursor} (h : r c = .ok (a, c')) (f : α → Reader β) :
    (r >>= f) c = f a c' := by
  show (r c >>= fun p => f p.1 p.2) = f a c'
  rw [h]
  rfl

/-- When two readers in a row go well, the first one does. -/
theorem exists_of_bind_ok {f : α → Reader β} {c c' : Cursor} (h : (r >>= f) c = .ok (b, c')) :
    ∃ a d, r c = .ok (a, d) ∧ f a d = .ok (b, c') := by
  rcases hstart : r c with e | ⟨a, d⟩
  · have hstop : (r >>= f) c = .error e := by
      show (r c >>= fun p => f p.1 p.2) = .error e
      rw [hstart]
      rfl
    rw [hstop] at h
    cases h
  · rw [bind_of_ok hstart] at h
    exact ⟨a, d, rfl, h⟩

/-- The other place of a cursor after some characters. -/
theorem facing_append (offset : Nat) (xs ys : List Char) :
    Cursor.facing (offset + byteCount (xs ++ ys)) more =
      .facing (offset + byteCount xs + byteCount ys) more := by
  rw [byteCount_append, Nat.add_assoc]

namespace Reads

protected theorem pure (a : α) (more : List Char) : Reads (Pure.pure a) [] a more :=
  fun _ => rfl

protected theorem bind {f : α → Reader β} {s t : List Char} (hr : Reads r s a (t ++ more))
    (hf : Reads (f a) t b more) : Reads (r >>= f) (s ++ t) b more := by
  intro offset
  rw [List.append_assoc, bind_of_ok (hr offset), hf, facing_append]

/-- A reader that steps over a text may be followed by one that steps over nothing. -/
theorem bind_nil {f : α → Reader β} (hr : Reads r text a more) (hf : Reads (f a) [] b more) :
    Reads (r >>= f) text b more := by
  have hboth : Reads (r >>= f) (text ++ []) b more := Reads.bind hr hf
  rwa [List.append_nil] at hboth

/-- Looking at the next character. -/
theorem peek {f : Option Char → Reader β} (h : Reads (f (text ++ more).head?) text b more) :
    Reads (peek? >>= f) text b more :=
  fun offset => h offset

/-- Looking at the next character after blanks. -/
theorem afterBlanks {f : Option Char → Reader β} {cs : List Char} (hcs : Blanks cs)
    (hnext : ∀ x ∈ (text ++ more).head?, x ∉ [' ', '\t', '\n', '\r'])
    (h : Reads (f (text ++ more).head?) text b more) :
    Reads (peekAfterBlanks? >>= f) (cs ++ text) b more := by
  intro offset
  have hpeek : peekAfterBlanks? (Cursor.facing offset (cs ++ (text ++ more))) =
      .ok ((text ++ more).head?, Cursor.facing (offset + byteCount cs) (text ++ more)) := by
    show peek? (Cursor.facing offset (cs ++ (text ++ more))).skipBlanks = _
    rw [Cursor.skipBlanks_facing hcs hnext]
    rfl
  rw [List.append_assoc, bind_of_ok hpeek, h, facing_append]

/-- Looking at the next character after blanks, without stepping over anything else. -/
theorem afterBlanks_nil {f : Option Char → Reader β} {cs : List Char} (hcs : Blanks cs)
    (hnext : ∀ x ∈ more.head?, x ∉ [' ', '\t', '\n', '\r'])
    (h : Reads (f more.head?) [] b more) : Reads (peekAfterBlanks? >>= f) cs b more := by
  have hread : Reads (peekAfterBlanks? >>= f) (cs ++ []) b more := afterBlanks hcs hnext h
  rwa [List.append_nil] at hread

/-- Looking at the next character after blanks, where there are none. -/
theorem peekAfterBlanks {f : Option Char → Reader β}
    (hblank : ∀ x ∈ (text ++ more).head?, x ∉ [' ', '\t', '\n', '\r'])
    (h : Reads (f (text ++ more).head?) text b more) :
    Reads (peekAfterBlanks? >>= f) text b more := by
  have hread : Reads (peekAfterBlanks? >>= f) ([] ++ text) b more := afterBlanks blanks_nil hblank h
  exact hread

/-- Stepping over a character. -/
theorem advance (x : Char) (more : List Char) : Reads Reader.advance [x] () more := by
  intro offset
  have hafter : (Cursor.facing offset (x :: more)).advance =
      Cursor.facing (offset + byteCount [x]) more := by
    rw [byteCount_cons, Cursor.advance, Cursor.facing, byteCount_cons]
    exact congrArg (Cursor.mk more (offset + x.utf8Size)) (by rw [← Nat.add_assoc]; rfl)
  show Except.ok ((), (Cursor.facing offset (x :: more)).advance) = _
  rw [hafter]

/-- Stepping over a character and reading on. -/
theorem advance_bind {f : Unit → Reader β} {x : Char} (h : Reads (f ()) text b more) :
    Reads (Reader.advance >>= f) (x :: text) b more :=
  Reads.bind (advance x _) h

/-- Settling faults does not touch what goes well. -/
theorem settling {settle : Cursor → Cursor} (h : Reads r text a more) :
    Reads (Reader.settling settle r) text a more := by
  intro offset
  rw [Reader.settling, h offset]

end Reads

/-- A reader that reads a whole text has read it. -/
theorem run_of_reads {s : String} (h : Reads r s.toList a []) : run r s = .ok a := by
  have hread := h 0
  rw [List.append_nil, ← Cursor.start_eq_facing] at hread
  rw [run, hread]

/-! ## Rounds -/

/-- Rounds of reading take a text for a result: the last one answers, and each one before has read
something. -/
inductive Rounds (round : σ → Reader (σ ⊕ α)) : σ → List Char → α → List Char → Prop where
  | last {s : σ} {text more : List Char} {a : α} (h : Reads (round s) text (.inr a) more) :
      Rounds round s text a more
  | next {s t : σ} {first text more : List Char} {a : α}
      (h : Reads (round s) first (.inl t) (text ++ more)) (hne : first ≠ [])
      (hrest : Rounds round t text a more) : Rounds round s (first ++ text) a more

/-- There are fewer rounds than bytes, and so enough of them. -/
theorem Rounds.reads_go {round : σ → Reader (σ ⊕ α)} {s : σ} (h : Rounds round s text a more) :
    ∀ n, byteCount text < n → Reads (iterate.go round n s) text a more := by
  induction h with
  | last h =>
    intro n hn
    cases n with
    | zero => exact absurd hn (Nat.not_lt_zero _)
    | succ n => exact h.bind_nil (.pure _ _)
  | next h hne hrest ih =>
    intro n hn
    cases n with
    | zero => exact absurd hn (Nat.not_lt_zero _)
    | succ n =>
      rw [byteCount_append] at hn
      have hfirst := byteCount_pos hne
      exact Reads.bind h (ih n (by omega))

theorem Rounds.reads {round : σ → Reader (σ ⊕ α)} {s : σ} (h : Rounds round s text a more) :
    Reads (iterate round s) text a more := by
  intro offset
  show iterate.go round ((Cursor.facing offset (text ++ more)).left + 1) s _ = _
  refine h.reads_go _ ?_ offset
  rw [Cursor.left_facing, byteCount_append]
  omega

/-- Rounds that each take the text of an item, up to one that takes the text of the end. -/
theorem Reads.iterate_of_steps {β : Type} {round : σ → Reader (σ ⊕ α)} {last : List Char}
    (f : β → List Char) (add : σ → β → σ) (result : σ → α)
    (hstep : ∀ s b rest, Reads (round s) (f b) (.inl (add s b)) rest) (hne : ∀ b, f b ≠ [])
    (hlast : ∀ s, Reads (round s) last (.inr (result s)) more) (bs : List β) (s : σ)
    (ha : result (bs.foldl add s) = a) : Reads (iterate round s) (bs.flatMap f ++ last) a more := by
  refine Rounds.reads ?_
  induction bs generalizing s with
  | nil =>
    rw [← ha]
    exact .last (hlast s)
  | cons b bs ih =>
    rw [List.flatMap_cons, List.append_assoc]
    exact .next (hstep s b _) (hne b) (ih (add s b) ha)

end Reader

end Pipewright.Json
