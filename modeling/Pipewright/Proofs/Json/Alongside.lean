import Pipewright.Proofs.Json.Gives

/-!
# Two readers side by side

A decoder goes over a text in the same steps as the reader of values of any shape, and only does
something else with what it finds.  So wherever a decoder reads something, a value stands there too.
How the two are related is told for the parts of a record one by one: what a field sets, and the
member that has been put into the object meanwhile.

* `Reader.Alongside`: what one reader reads, and what another one reads in its place.
* `Reader.Alongside.bind`, `Reader.Alongside.iterate`: readers one after the other, and rounds.
* `Decoder.Matches`, `Decoder.Matches.parse`: what is decoded, and the value that it stands for.
* `Decoder.matches_text`, `Decoder.matches_value`, `Decoder.Matches.optional`: scalars and nulls.
* `Decoder.matches_openRecord`: records that take the values of all keys.
-/

namespace Pipewright.Json

/-- Blanks are skipped once. -/
theorem Cursor.skipBlanks_skipBlanks (c : Cursor) : c.skipBlanks.skipBlanks = c.skipBlanks := by
  have hnone : ∀ (p : Char → Bool) (l : List Char),
      (l.drop (l.takeWhile p).length).takeWhile p = [] := by
    intro p l
    induction l with
    | nil => rfl
    | cons x l ih =>
      by_cases hx : p x = true
      · rw [List.takeWhile_cons_of_pos hx]
        exact ih
      · rw [List.takeWhile_cons_of_neg hx]
        exact List.takeWhile_cons_of_neg hx
  show (⟨_, _, _⟩ : Cursor) = _
  rw [Cursor.skipBlanks, hnone]
  rfl

/-! ## Readers -/

namespace Reader

variable {α β γ δ σ τ : Type} {r : Reader α} {r' : Reader β} {R : α → β → Prop}
  {S : γ → δ → Prop}

/-- Whatever the first reader reads, the second one reads something in its place, and the two are
related. -/
def Alongside (r : Reader α) (r' : Reader β) (R : α → β → Prop) : Prop :=
  ∀ c a c', r c = .ok (a, c') → ∃ b, r' c = .ok (b, c') ∧ R a b

namespace Alongside

protected theorem refl (r : Reader α) : Alongside r r Eq :=
  fun _ a _ ha => ⟨a, ha, rfl⟩

protected theorem pure {a : α} {b : β} (h : R a b) :
    Alongside (Pure.pure a) (Pure.pure b) R := by
  intro c a' c' ha
  cases ha
  exact ⟨b, rfl, h⟩

/-- A reader that gives nothing goes along with any other. -/
theorem of_never (h : Gives r fun _ => False) (r' : Reader β) (R : α → β → Prop) :
    Alongside r r' R :=
  fun c a c' ha => (h c a c' ha).elim

/-- The second steps of two readers start with what the first ones have read. -/
protected theorem bind {f : α → Reader γ} {f' : β → Reader δ} (hr : Alongside r r' R)
    (hf : ∀ a b, R a b → Alongside (f a) (f' b) S) : Alongside (r >>= f) (r' >>= f') S := by
  intro c x c' hrun
  obtain ⟨a, c₁, ha, hx⟩ := exists_of_bind_ok hrun
  obtain ⟨b, hb, hab⟩ := hr c a c₁ ha
  rw [bind_of_ok hb]
  exact hf a b hab c₁ x c' hx

/-- Two readers whose first step is the same. -/
theorem bind_same {f : α → Reader γ} {f' : α → Reader δ}
    (hf : ∀ a, Alongside (f a) (f' a) S) : Alongside (r >>= f) (r >>= f') S := by
  refine .bind (.refl r) ?_
  rintro a _ rfl
  exact hf a

theorem settling {settle settle' : Cursor → Cursor} (h : Alongside r r' R) :
    Alongside (Reader.settling settle r) (Reader.settling settle' r') R := by
  intro c a c' ha
  rw [Reader.settling] at ha
  split at ha
  · cases ha
  · obtain ⟨b, hb, hab⟩ := h c a c' ha
    refine ⟨b, ?_, hab⟩
    rw [Reader.settling, hb]

/-- Rounds that are related before and after answer together, for they step over the same bytes. -/
theorem iterate {round : σ → Reader (σ ⊕ α)} {round' : τ → Reader (τ ⊕ β)} {I : σ → τ → Prop}
    (hround : ∀ s t, I s t → Alongside (round s) (round' t) (Sum.LiftRel I R)) {s : σ} {t : τ}
    (hst : I s t) : Alongside (Reader.iterate round s) (Reader.iterate round' t) R := by
  have hgo : ∀ n s t, I s t → Alongside (iterate.go round n s) (iterate.go round' n t) R := by
    intro n
    induction n with
    | zero => exact fun s t _ => of_never (.failAtNext _ _) _ _
    | succ n ih =>
      intro s t hst
      refine .bind (hround s t hst) fun answer answer' hanswer => ?_
      cases hanswer with
      | inl hnext => exact ih _ _ hnext
      | inr hlast => exact .pure hlast
  exact .bind_same fun c => hgo _ s t hst

/-- Members that are read under the same keys. -/
theorem readMembers {member : String → σ → Reader σ} {member' : String → τ → Reader τ}
    {I : σ → τ → Prop} (h : ∀ key s t, I s t → Alongside (member key s) (member' key t) I)
    {s : σ} {t : τ} (hst : I s t) :
    Alongside (Reader.readMembers member s) (Reader.readMembers member' t) I := by
  refine .iterate (I := fun state state' => I state.1 state'.1 ∧ state.2 = state'.2) ?_ ⟨hst, rfl⟩
  rintro ⟨s, first⟩ ⟨t, _⟩ ⟨hst, rfl⟩
  refine .bind_same fun more => ?_
  cases more with
  | false => exact .pure (.inr hst)
  | true =>
    refine .bind_same fun _ => .bind_same fun key => ?_
    exact .bind (h key s t hst) fun s' t' hst' => .pure (.inl ⟨hst', rfl⟩)

theorem inCurly {body : Nat → Reader α} {body' : Nat → Reader β} {depth : Nat}
    (h : Alongside (body depth) (body' depth) R) :
    Alongside (Reader.inCurly (depth + 1) body) (Reader.inCurly (depth + 1) body') R :=
  .bind_same fun _ => .settling (.bind h fun _ _ hab => .bind_same fun _ => .pure hab)

/-- What is read from a whole text. -/
theorem run (h : Alongside r r' R) {s : String} {a : α} (hrun : Reader.run r s = .ok a) :
    ∃ b, Reader.run r' s = .ok b ∧ R a b := by
  rw [Reader.run] at hrun
  split at hrun
  · next a' c' ha =>
    cases hrun
    obtain ⟨b, hb, hab⟩ := h _ _ _ ha
    refine ⟨b, ?_, hab⟩
    rw [Reader.run, hb]
  · cases hrun
  · cases hrun

end Alongside

/-! ### Values behind blanks -/

variable {depth : Nat} {c c' : Cursor} {v : Value}

/-- A reader that looks at the next character after blanks goes on behind them. -/
theorem peekAfterBlanks_bind (f : Option Char → Reader α) (c : Cursor) :
    (peekAfterBlanks? >>= f) c = f c.skipBlanks.rest.head? c.skipBlanks :=
  bind_of_ok (r := peekAfterBlanks?) rfl f

/-- Blanks before a value do not matter. -/
theorem readValue_skipBlanks (depth : Nat) (c : Cursor) :
    readValue depth c.skipBlanks = readValue depth c := by
  unfold readValue
  rw [peekAfterBlanks_bind, peekAfterBlanks_bind, Cursor.skipBlanks_skipBlanks]

/-- Only a value that starts with an `n` is null. -/
theorem head?_of_readValue_null (h : readValue depth c = .ok (.null, c')) :
    c.skipBlanks.rest.head? = some 'n' := by
  have hnever : ∀ {r : Reader Value} {c₁ : Cursor}, Gives r (· ≠ .null) →
      r c₁ = .ok (.null, c') → c.skipBlanks.rest.head? = some 'n' :=
    fun hr hrun => absurd rfl (hr _ _ _ hrun)
  unfold readValue at h
  rw [peekAfterBlanks_bind] at h
  generalize c.skipBlanks.rest.head? = next at h hnever ⊢
  split at h
  · cases h
  · rfl
  · exact hnever (.bind fun _ => .bind fun _ => .pure (by simp)) h
  · exact hnever (.bind fun _ => .bind fun _ => .pure (by simp)) h
  · exact hnever (.bind fun _ => .bind fun _ => .pure (by simp)) h
  · exact hnever (.bind fun _ => .bind fun _ => .pure (by simp)) h
  · cases depth with
    | zero => cases h
    | succ depth => exact hnever (gives_inSquare (fun _ => .bind fun _ => .pure (by simp)) _) h
  · cases depth with
    | zero => cases h
    | succ depth => exact hnever (gives_inCurly (fun _ => .bind fun _ => .pure (by simp)) _) h
  · split at h
    · exact hnever (.bind fun _ => .pure (by simp)) h
    · cases h

end Reader

open Reader

/-! ## Decoders -/

namespace Decoder

variable {α β : Type} {d : Decoder α} {R : α → Value → Prop}

/-- Wherever the decoder reads something, a value stands, and the two are related. -/
def Matches (d : Decoder α) (R : α → Value → Prop) : Prop :=
  ∀ depth, Alongside (d.read depth) (readValue depth) R

/-- A text that is decoded is the text of a value. -/
theorem Matches.parse (h : d.Matches R) {text : String} {a : α} (hparse : d.parse text = .ok a) :
    ∃ v, value.parse text = .ok v ∧ R a v :=
  Alongside.run (.bind (h maxDepth) fun _ _ hav => .bind_same fun _ => .pure hav) hparse

theorem Matches.mono {S : α → Value → Prop} (h : d.Matches R) (hRS : ∀ a v, R a v → S a v) :
    d.Matches S := by
  intro depth c a c' ha
  obtain ⟨v, hv, hav⟩ := h depth c a c' ha
  exact ⟨v, hv, hRS a v hav⟩

theorem Matches.map {f : α → β} {S : β → Value → Prop} (h : d.Matches R)
    (hf : ∀ a v, R a v → S (f a) v) : (d.map f).Matches S := by
  intro depth c b c' hrun
  obtain ⟨a, c₁, ha, hb⟩ := exists_of_bind_ok hrun
  cases hb
  obtain ⟨v, hv, hav⟩ := h depth c a c' ha
  exact ⟨v, hv, hf a v hav⟩

theorem matches_value : value.Matches fun w v => v = w :=
  fun _ _ v _ hv => ⟨v, hv, rfl⟩

/-- A text is decoded from the string that it is. -/
theorem matches_text : text.Matches fun s v => v = .string s := by
  intro depth
  show Alongside (readText "a string") (readValue depth) _
  unfold readValue
  refine .bind_same fun next => ?_
  split
  · exact .of_never (.failAtNext _ _) _ _
  · refine .bind_same fun _ => ?_
    intro c s c' hs
    refine ⟨.string s, ?_, rfl⟩
    rw [bind_of_ok hs]
    rfl
  · exact .of_never (gives_wrongKind _ _) _ _

/-- What may be absent is decoded from null, or from a value that is not null. -/
theorem Matches.optional (h : d.Matches R) :
    d.optional.Matches fun o v => (v = .null ∧ o = none) ∨ v ≠ .null ∧ ∃ a, o = some a ∧ R a v := by
  intro depth c o c' hrun
  replace hrun := (peekAfterBlanks_bind _ c).symm.trans hrun
  generalize hnext : c.skipBlanks.rest.head? = next at hrun
  split at hrun
  · obtain ⟨_, c₁, hadvance, hrun⟩ := exists_of_bind_ok hrun
    obtain ⟨_, c₂, hword, hdone⟩ := exists_of_bind_ok hrun
    cases hdone
    refine ⟨.null, ?_, .inl ⟨rfl, rfl⟩⟩
    unfold readValue
    rw [peekAfterBlanks_bind, hnext]
    show (advance >>= _) _ = _
    rw [bind_of_ok hadvance, bind_of_ok hword]
    rfl
  · next hother =>
    obtain ⟨a, c₁, ha, hdone⟩ := exists_of_bind_ok hrun
    cases hdone
    obtain ⟨v, hv, hav⟩ := h depth _ a c' ha
    rw [readValue_skipBlanks] at hv
    refine ⟨v, hv, .inr ⟨?_, a, rfl, hav⟩⟩
    rintro rfl
    exact hother (hnext.symm.trans (head?_of_readValue_null hv))

end Decoder

/-! ## Records -/

/-- The record with what has been set, and the members that have been read, stay related when a
field is set and the member is put in. -/
def Field.Tracks {α : Type} (f : Field α)
    (I : Record.Progress α → List (String × Value) → Prop) : Prop :=
  ∀ key, key = f.name ∨ key ∈ f.aliases → f.decoder.Matches fun set v =>
    ∀ p ms, I p ms → I (set p.1, f.name :: p.2) (putKey ms key v)

namespace Record

variable {α : Type} {r : Record α} {other : String → Decoder (α → α)}
  {I : Progress α → List (String × Value) → Prop}

/-- The same for the values of keys that name no field. -/
def OthersTrack (r : Record α) (other : String → Decoder (α → α))
    (I : Progress α → List (String × Value) → Prop) : Prop :=
  ∀ key, r.field? key = none → (other key).Matches fun set v =>
    ∀ p ms, I p ms → I (set p.1, p.2) (putKey ms key v)

theorem alongside_readMember (hother : r.other = some other) (hothers : r.OthersTrack other I)
    (hfields : ∀ f ∈ r.fields, f.Tracks I) (depth : Nat) (key : String) {p : Progress α}
    {ms : List (String × Value)} (hp : I p ms) :
    Alongside (r.readMember depth key p)
      (do readColon; return putKey ms key (← readValue depth)) I := by
  rw [readMember]
  split
  · next f hf =>
    split
    · exact .of_never (.failOpen _ _) _ _
    · have hkey : key = f.name ∨ key ∈ f.aliases := by simpa using List.find?_some hf
      refine .bind_same fun _ => ?_
      exact .bind (hfields f (List.mem_of_find?_eq_some hf) key hkey depth)
        fun set v hset => .pure (hset p ms hp)
  · next hkey =>
    refine .bind_same fun _ => ?_
    rw [hother]
    exact .bind (hothers key hkey depth) fun set v hset => .pure (hset p ms hp)

end Record

namespace Decoder

variable {α : Type} {r : Record α} {other : String → Decoder (α → α)}
  {I : Record.Progress α → List (String × Value) → Prop}

/-- A record that takes the values of all keys is decoded from an object, with whose members it stays
related. -/
theorem matches_openRecord (hother : r.other = some other) (hothers : r.OthersTrack other I)
    (hfields : ∀ f ∈ r.fields, f.Tracks I) (hblank : I (r.blank, []) []) :
    (record r).Matches fun a v =>
      ∃ ms seen, v = .object ms ∧ I (a, seen) ms ∧ r.missing? seen = none := by
  intro depth
  show Alongside (r.read depth) (readValue depth) _
  unfold readValue
  refine .bind_same fun next => ?_
  split
  · exact .of_never (.failAtNext _ _) _ _
  · cases depth with
    | zero => exact .of_never (.failAtNext _ _) _ _
    | succ depth =>
      refine .inCurly (.bind (.readMembers (fun key p ms hp =>
        Record.alongside_readMember hother hothers hfields depth key hp) hblank) ?_)
      rintro ⟨a, seen⟩ ms hp
      dsimp only
      split
      · exact .of_never (.failOpen _ _) _ _
      · next hmissing => exact .pure ⟨ms, seen, rfl, hp, hmissing⟩
  · rw [hother]
    exact .of_never (gives_wrongKind _ _) _ _
  · exact .of_never (gives_wrongKind _ _) _ _

end Decoder

end Pipewright.Json
