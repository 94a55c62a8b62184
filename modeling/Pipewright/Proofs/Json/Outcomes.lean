import Pipewright.Proofs.Json.Gives

/-!
# What comes of a text

Before a text a reader either takes it for a result, or stops at a fault somewhere.  When only the
text decides which of the two it is, whatever may follow, the text has an outcome for that reader:
the result, or none.  The outcome for readers one after the other follows from those for the
readers.

* `Reader.Outcome`: what comes of a text.
* `Reader.Outcome.bind`, `Reader.Outcome.peek`, `Reader.Outcome.afterBlanks`: the steps of a reader.
* `Reader.Repeats`, `Reader.Repeats.outcome`: what is read in rounds.
* `Reader.alone`, `Reader.alone_eq`, `Reader.run_eq_ok_iff`: the outcome of a text that nothing
  follows.
-/

namespace Pipewright.Json

namespace Reader

variable {α β σ : Type} {r : Reader α} {a : α} {o : Option α} {text more : List Char}

/-- Before the text and `more` the reader takes the text for the result, or stops at a fault when
there is none. -/
def Outcome (r : Reader α) (text : List Char) (o : Option α) (more : List Char) : Prop :=
  match o with
  | some a => Reads r text a more
  | none => ∀ offset, ∃ e, r (.facing offset (text ++ more)) = .error e

/-- Three readers one after the other. -/
theorem bind_bind {γ : Type} (r : Reader α) (f : α → Reader β) (g : β → Reader γ) :
    r >>= f >>= g = r >>= fun a => f a >>= g := by
  funext c
  show (r c >>= fun p => f p.1 p.2) >>= (fun p => g p.1 p.2) =
    r c >>= fun p => f p.1 p.2 >>= fun p => g p.1 p.2
  cases r c with
  | error e => rfl
  | ok p => rfl

namespace Outcome

/-- A reader that gives nothing stops. -/
theorem of_never (h : Gives r fun _ => False) (text more : List Char) :
    Outcome r text none more := by
  intro offset
  rcases hrun : r (.facing offset (text ++ more)) with e | ⟨a, c⟩
  · exact ⟨e, rfl⟩
  · exact (h _ a c hrun).elim

theorem failHere (issue : Issue) (text more : List Char) :
    Outcome (Reader.failHere issue : Reader α) text none more :=
  of_never (.failHere _ _) _ _

theorem failAtNext (issue : Issue) (text more : List Char) :
    Outcome (Reader.failAtNext issue : Reader α) text none more :=
  of_never (.failAtNext _ _) _ _

theorem failOpen (issue : Issue) (text more : List Char) :
    Outcome (Reader.failOpen issue : Reader α) text none more :=
  of_never (.failOpen _ _) _ _

protected theorem pure (a : α) (more : List Char) : Outcome (Pure.pure a) [] (some a) more :=
  Reads.pure a more

/-- A reader that stops may have more text before it. -/
theorem append {s : List Char} (h : Outcome r s none (text ++ more)) :
    Outcome r (s ++ text) none more := by
  intro offset
  rw [List.append_assoc]
  exact h offset

/-- Readers one after the other. -/
protected theorem bind {f : α → Reader β} {g : α → Option β} {s t : List Char}
    (hr : Outcome r s o (t ++ more)) (hf : ∀ a, o = some a → Outcome (f a) t (g a) more) :
    Outcome (r >>= f) (s ++ t) (o.bind g) more := by
  cases o with
  | none =>
    refine append fun offset => ?_
    obtain ⟨e, he⟩ := hr offset
    refine ⟨e, ?_⟩
    show (r _ >>= fun p => f p.1 p.2) = .error e
    rw [he]
    rfl
  | some a =>
    have hnext := hf a rfl
    show Outcome (r >>= f) (s ++ t) (g a) more
    cases hg : g a with
    | none =>
      rw [hg] at hnext
      intro offset
      rw [List.append_assoc, bind_of_ok (hr offset)]
      exact hnext _
    | some b =>
      rw [hg] at hnext
      exact Reads.bind hr hnext

/-- A reader that steps over a text may be followed by one that steps over nothing. -/
theorem bind_nil {f : α → Reader β} {g : α → Option β} (hr : Outcome r text o more)
    (hf : ∀ a, o = some a → Outcome (f a) [] (g a) more) :
    Outcome (r >>= f) text (o.bind g) more := by
  have hboth : Outcome (r >>= f) (text ++ []) (o.bind g) more := Outcome.bind hr hf
  rwa [List.append_nil] at hboth

/-- What the first reader takes its text for is known to the second one. -/
theorem bind_reads {f : α → Reader β} {p : Option β} {s t : List Char}
    (hr : Reads r s a (t ++ more)) (hf : Outcome (f a) t p more) :
    Outcome (r >>= f) (s ++ t) p more :=
  Outcome.bind (o := some a) (g := fun _ => p) hr fun _ h => Option.some.inj h ▸ hf

/-- When the first reader stops, the second one does not matter. -/
theorem bind_stop {f : α → Reader β} (hr : Outcome r text none more) :
    Outcome (r >>= f) text none more :=
  bind_nil (g := fun _ => none) hr fun _ h => by cases h

theorem map {f : α → β} (h : Outcome r text o more) :
    Outcome (do return f (← r)) text (o.map f) more := by
  rw [Option.map_eq_bind]
  exact bind_nil h fun a _ => .pure (f a) more

theorem advance_bind {f : Unit → Reader β} {p : Option β} {x : Char}
    (h : Outcome (f ()) text p more) : Outcome (Reader.advance >>= f) (x :: text) p more :=
  bind_reads (Reads.advance x _) h

/-- Looking at the next character. -/
theorem peek {f : Option Char → Reader β} {p : Option β}
    (h : Outcome (f (text ++ more).head?) text p more) : Outcome (peek? >>= f) text p more := by
  cases p with
  | none => exact fun offset => h offset
  | some b => exact Reads.peek h

/-- Looking at the next character after blanks. -/
theorem afterBlanks {f : Option Char → Reader β} {p : Option β} {cs : List Char} (hcs : Blanks cs)
    (hnext : ∀ x ∈ (text ++ more).head?, x ∉ [' ', '\t', '\n', '\r'])
    (h : Outcome (f (text ++ more).head?) text p more) :
    Outcome (peekAfterBlanks? >>= f) (cs ++ text) p more := by
  have hpeek : Reads peekAfterBlanks? cs (text ++ more).head? (text ++ more) :=
    Reads.afterBlanks_nil (f := Pure.pure) hcs hnext (.pure _ _)
  exact bind_reads hpeek h

/-- Settling faults changes no outcome. -/
theorem settling {settle : Cursor → Cursor} (h : Outcome r text o more) :
    Outcome (Reader.settling settle r) text o more := by
  cases o with
  | some a => exact Reads.settling h
  | none =>
    intro offset
    obtain ⟨e, he⟩ := h offset
    rw [Reader.settling]
    split
    · exact ⟨_, rfl⟩
    · exact ⟨e, he⟩

end Outcome

/-! ## Rounds -/

/-- What comes of a text in rounds of reading: the last one answers or stops, and each one before
has read something. -/
inductive Repeats (round : σ → Reader (σ ⊕ α)) : σ → List Char → Option α → List Char → Prop where
  | last {s : σ} {text more : List Char} {a : α} (h : Reads (round s) text (.inr a) more) :
      Repeats round s text (some a) more
  | stop {s : σ} {text more : List Char} (h : Outcome (round s) text none more) :
      Repeats round s text none more
  | next {s t : σ} {f text more : List Char} {o : Option α}
      (h : Reads (round s) f (.inl t) (text ++ more)) (hne : f ≠ [])
      (hrest : Repeats round t text o more) : Repeats round s (f ++ text) o more

namespace Repeats

variable {round : σ → Reader (σ ⊕ α)} {s : σ}

theorem rounds (h : Repeats round s text (some a) more) : Rounds round s text a more := by
  generalize ho : some a = o at h
  induction h with
  | last h =>
    obtain rfl := Option.some.inj ho
    exact .last h
  | stop => cases ho
  | next h hne _ ih => exact .next h hne (ih ho)

/-- A round that stops does so however many rounds there are. -/
theorem outcome_go (h : Repeats round s text none more) (n : Nat) :
    Outcome (iterate.go round n s) text none more := by
  generalize ho : none = o at h
  induction h generalizing n with
  | last => cases ho
  | stop h =>
    cases n with
    | zero => exact .failAtNext _ _ _
    | succ n => exact .bind_stop h
  | next h _ _ ih =>
    cases ho
    cases n with
    | zero => exact .failAtNext _ _ _
    | succ n => exact .bind_reads h (ih n rfl)

theorem outcome (h : Repeats round s text o more) : Outcome (iterate round s) text o more := by
  cases o with
  | some a => exact h.rounds.reads
  | none => exact fun offset => h.outcome_go _ offset

/-- A round that answers whenever it does not stop. -/
theorem answer (h : Outcome (round s) text (o.map .inr) more) : Repeats round s text o more := by
  cases o with
  | none => exact .stop h
  | some a => exact .last h

/-- A round that goes on whenever it does not stop, and the rounds behind it. -/
theorem bind {first : List Char} {p : Option σ} {g : σ → Option α}
    (h : Outcome (round s) first (p.map .inl) (text ++ more)) (hne : first ≠ [])
    (hrest : ∀ t, p = some t → Repeats round t text (g t) more) :
    Repeats round s (first ++ text) (p.bind g) more := by
  cases p with
  | none => exact .stop (.append h)
  | some t => exact .next h hne (hrest t rfl)

end Repeats

/-! ## Texts that nothing follows -/

/-- The result that the reader takes the text for when nothing follows. -/
def alone (r : Reader α) (text : List Char) : Option α :=
  match r (.facing 0 text) with
  | .ok (a, c) => if c.rest = [] then some a else none
  | .error _ => none

theorem alone_map (r : Reader α) (f : α → β) (text : List Char) :
    alone (do return f (← r)) text = (alone r text).map f := by
  rcases hrun : r (.facing 0 text) with e | ⟨a, c⟩
  · have hstop : (do return f (← r) : Reader β) (.facing 0 text) = .error e := by
      show (r _ >>= fun p => Except.ok (f p.1, p.2)) = .error e
      rw [hrun]
      rfl
    rw [alone, alone, hrun, hstop]
    rfl
  · rw [alone, alone, bind_of_ok hrun, hrun]
    show (if c.rest = [] then some (f a) else none) = _
    dsimp only
    split <;> rfl

theorem alone_eq (h : Outcome r text o []) : alone r text = o := by
  cases o with
  | some a =>
    have hread := h 0
    rw [List.append_nil] at hread
    rw [alone, hread]
    rfl
  | none =>
    obtain ⟨e, he⟩ := h 0
    rw [List.append_nil] at he
    rw [alone, he]

/-- A whole text is read for its outcome. -/
theorem run_eq_ok_iff {s : String} (h : Outcome r s.toList o []) :
    run r s = .ok a ↔ o = some a := by
  cases o with
  | some b =>
    rw [run_of_reads h, Except.ok.injEq, Option.some.injEq]
  | none =>
    obtain ⟨e, he⟩ := h 0
    rw [List.append_nil, ← Cursor.start_eq_facing] at he
    rw [run, he]
    cases e <;> simp

/-- An outcome that a text has whatever follows is the one that it has alone. -/
theorem outcome_alone {C : List Char → Prop} (hC : C [])
    (h : ∃ o, ∀ more, C more → Outcome r text o more) (hmore : C more) :
    Outcome r text (alone r text) more := by
  obtain ⟨o, ho⟩ := h
  rw [alone_eq (ho [] hC)]
  exact ho more hmore

end Reader

end Pipewright.Json
