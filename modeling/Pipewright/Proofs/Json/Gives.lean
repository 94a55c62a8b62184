import Pipewright.Json.Decoder
import Pipewright.Proofs.Json.Reads

/-!
# What readers give

Some texts a reader refuses, and from the others it gives only certain results, wherever it starts.
Such a property of results goes from the parts of a reader to the whole: over rounds of reading as
an invariant, and over the members of an object as what each field keeps of a record.

* `Reader.Gives`: a property of all results of a reader.
* `Reader.Gives.bind`, `Reader.Gives.iterate`: readers one after the other, and rounds of reading.
* `Number.Fits`, `Reader.gives_readNumber`: whole numbers have at most 64 bits.
* `Decoder.Gives`, `Decoder.gives_record`, `Decoder.gives_openRecord`: a property of all that is
  decoded.
-/

namespace Pipewright.Json

/-! ## Readers -/

namespace Reader

variable {α β σ : Type} {r : Reader α} {P Q : α → Prop}

/-- Whatever the reader reads has the property. -/
def Gives (r : Reader α) (P : α → Prop) : Prop :=
  ∀ c a c', r c = .ok (a, c') → P a

namespace Gives

protected theorem pure {a : α} (h : P a) : Gives (Pure.pure a) P := by
  intro c b c' hb
  cases hb
  exact h

/-- A reader that stops gives nothing. -/
protected theorem throw (e : Fault) (P : α → Prop) : Gives (MonadExcept.throw e) P := by
  intro c b c' hb
  cases hb

theorem failHere (issue : Issue) (P : α → Prop) : Gives (Reader.failHere issue) P := by
  intro c b c' hb
  cases hb

theorem failAtNext (issue : Issue) (P : α → Prop) : Gives (Reader.failAtNext issue) P := by
  intro c b c' hb
  cases hb

theorem failOpen (issue : Issue) (P : α → Prop) : Gives (Reader.failOpen issue) P := by
  intro c b c' hb
  cases hb

/-- What the first reader gives is known to the second one. -/
theorem bind_of {f : α → Reader β} {P : β → Prop} (hr : Gives r Q) (hf : ∀ a, Q a → Gives (f a) P) :
    Gives (r >>= f) P := by
  intro c b c' hb
  obtain ⟨a, d, ha, hb⟩ := exists_of_bind_ok hb
  exact hf a (hr c a d ha) d b c' hb

/-- Only the second of two readers matters when it may start with anything. -/
protected theorem bind {f : α → Reader β} {P : β → Prop} (hf : ∀ a, Gives (f a) P) :
    Gives (r >>= f) P :=
  bind_of (Q := fun _ => True) (fun _ _ _ _ => trivial) fun a _ => hf a

theorem mono (h : Gives r P) (hPQ : ∀ a, P a → Q a) : Gives r Q :=
  fun c a c' ha => hPQ a (h c a c' ha)

theorem settling {settle : Cursor → Cursor} (h : Gives r P) :
    Gives (Reader.settling settle r) P := by
  intro c a c' ha
  rw [Reader.settling] at ha
  split at ha
  · cases ha
  · exact h c a c' ha

/-- What holds before each round holds when a round answers. -/
theorem iterate {round : σ → Reader (σ ⊕ α)} {I : σ → Prop}
    (hround : ∀ s, I s → Gives (round s) (Sum.elim I P)) {s : σ} (hs : I s) :
    Gives (Reader.iterate round s) P := by
  have hgo : ∀ n s, I s → Gives (iterate.go round n s) P := by
    intro n
    induction n with
    | zero => exact fun s _ => failAtNext _ _
    | succ n ih =>
      intro s hs
      refine bind_of (hround s hs) fun answer hanswer => ?_
      cases answer with
      | inl t => exact ih t hanswer
      | inr a => exact .pure hanswer
  exact .bind fun c => hgo _ s hs

end Gives

/-- What a whole text is read for has the property. -/
theorem Gives.of_run {s : String} {a : α} (hr : Gives r P) (h : r.run s = .ok a) : P a := by
  rw [run] at h
  split at h
  · next b c hb =>
    cases h
    exact hr _ _ c hb
  · cases h
  · cases h

end Reader

open Reader

/-! ## Numbers -/

/-- A whole number has at most 64 bits, and zero has no sign. -/
def Number.Fits : Number → Prop
  | .natural n => n < UInt64.size
  | .negative n => n ≠ 0 ∧ n ≤ 1 <<< 63
  | .double _ => True

/-- The digits that are kept have at most 64 bits. -/
theorem significand_ofWhole_lt (ds : List Nat) :
    (Reader.Digits.ofWhole ds).significand < UInt64.size := by
  have hstep : ∀ (ds : List Nat) (x : Digits), x.significand < UInt64.size →
      (ds.foldl (fun x d =>
        if !x.shortened && fits (x.significand * 10 + d) then
          { x with significand := x.significand * 10 + d }
        else { x with exponent := x.exponent + 1, shortened := true }) x).significand <
        UInt64.size := by
    intro ds
    induction ds with
    | nil => exact fun x hx => hx
    | cons d ds ih =>
      intro x hx
      rw [List.foldl_cons]
      refine ih _ ?_
      split
      · next hfits =>
        exact of_decide_eq_true (Bool.and_eq_true _ _ ▸ hfits).2
      · exact hx
  exact hstep ds _ (by decide)

namespace Reader

theorem gives_scaled (negative : Bool) (significand : Nat) (exponent : Int) :
    Gives (scaled negative significand exponent) Number.Fits := by
  rw [scaled]
  split
  · exact .pure trivial
  · exact .failHere _ _

/-- A number with an exponent is a double. -/
theorem gives_readExponent (negative : Bool) (x : Digits) :
    Gives (readExponent negative x) Number.Fits := by
  refine .bind fun next => ?_
  extract_lets rest
  have hrest : ∀ down, Gives (rest down) Number.Fits := by
    refine fun down => .bind fun next => ?_
    split
    · exact .failHere _ _
    · split
      · exact .bind fun c => .throw _ _
      · refine .bind fun _ => .iterate (I := fun _ => True) (fun n _ => ?_) trivial
        refine .bind fun next => ?_
        split
        · exact .bind_of (gives_scaled _ _ _) fun a ha => .pure ha
        · refine .bind fun _ => ?_
          split
          · exact .pure trivial
          · split
            · exact .failHere _ _
            · exact .bind fun _ => .pure trivial
  split
  · exact .bind fun _ => .bind hrest
  · exact .bind fun _ => .bind hrest
  · exact .bind hrest

/-- A number with a fraction is a double. -/
theorem gives_readFraction (negative : Bool) (x : Digits) :
    Gives (readFraction negative x) Number.Fits := by
  refine .bind fun ds => ?_
  split
  · refine .bind fun next => ?_
    split
    · exact .failAtNext _ _
    · exact .failAtNext _ _
  · refine .bind fun next => ?_
    split
    · exact .bind fun _ => gives_readExponent _ _
    · exact .bind fun _ => gives_readExponent _ _
    · exact gives_scaled _ _ _

theorem gives_readAfterWhole (negative : Bool) {x : Digits} (hx : x.significand < UInt64.size) :
    Gives (readAfterWhole negative x) Number.Fits := by
  refine .bind fun next => ?_
  split
  · exact .bind fun _ => gives_readFraction _ _
  · exact .bind fun _ => gives_readExponent _ _
  · exact .bind fun _ => gives_readExponent _ _
  · rw [wholeNumber]
    split
    · exact gives_scaled _ _ _
    · split
      · exact .pure hx
      · split
        · next hfits => exact .pure hfits
        · exact gives_scaled _ _ _

/-- A whole number that is read has at most 64 bits. -/
theorem gives_readNumber (negative : Bool) : Gives (readNumber negative) Number.Fits := by
  refine .bind fun next => ?_
  split
  · exact .failHere _ _
  · refine .bind fun _ => .bind fun next => ?_
    split
    · exact .failAtNext _ _
    · exact gives_readAfterWhole _ (by decide)
  · split
    · exact .bind fun ds => gives_readAfterWhole _ (significand_ofWhole_lt ds)
    · exact .bind fun c => .throw _ _

/-! ## Arrays and objects -/

variable {α σ : Type}

/-- The items of an array have what each of them has. -/
theorem gives_readItems {item : Reader α} {P : α → Prop} (h : Gives item P) :
    Gives (readItems item) fun as => ∀ a ∈ as, P a := by
  refine .iterate (I := fun soFar => ∀ a ∈ soFar, P a) (fun soFar hsoFar => ?_)
    (List.forall_mem_nil P)
  refine .bind fun more => ?_
  cases more with
  | false =>
    exact .pure fun a ha => hsoFar a (List.mem_reverse.mp ha)
  | true =>
    exact .bind_of h fun a ha => .pure (List.forall_mem_cons.mpr ⟨ha, hsoFar⟩)

/-- What each member of an object keeps is kept by all of them. -/
theorem gives_readMembers {member : String → σ → Reader σ} {I : σ → Prop}
    (h : ∀ key s, I s → Gives (member key s) I) {s : σ} (hs : I s) :
    Gives (readMembers member s) I := by
  refine .iterate (I := fun state => I state.1) (fun state hstate => ?_) hs
  refine .bind fun more => ?_
  cases more with
  | false => exact .pure hstate
  | true =>
    refine .bind fun _ => .bind fun key => ?_
    exact .bind_of (h key state.1 hstate) fun t ht => .pure ht

theorem gives_inSquare {body : Nat → Reader α} {P : α → Prop} (h : ∀ d, Gives (body d) P)
    (depth : Nat) : Gives (inSquare depth body) P := by
  cases depth with
  | zero => exact .failAtNext _ _
  | succ d =>
    exact .bind fun _ => .settling (.bind_of (h d) fun a ha => .bind fun _ => .pure ha)

theorem gives_inCurly {body : Nat → Reader α} {P : α → Prop} (h : ∀ d, Gives (body d) P)
    (depth : Nat) : Gives (inCurly depth body) P := by
  cases depth with
  | zero => exact .failAtNext _ _
  | succ d =>
    exact .bind fun _ => .settling (.bind_of (h d) fun a ha => .bind fun _ => .pure ha)

end Reader

/-! ## Decoders -/

namespace Decoder

variable {α β : Type} {d : Decoder α} {P : α → Prop}

/-- Whatever the decoder reads has the property. -/
def Gives (d : Decoder α) (P : α → Prop) : Prop :=
  ∀ depth, Reader.Gives (d.read depth) P

theorem Gives.map {f : α → β} {Q : β → Prop} (h : d.Gives P) (hf : ∀ a, P a → Q (f a)) :
    (d.map f).Gives Q :=
  fun depth => .bind_of (h depth) fun a ha => .pure (hf a ha)

/-- Nothing is asked of what is read. -/
theorem gives_true (d : Decoder α) : d.Gives fun _ => True :=
  fun _ _ _ _ _ => trivial

/-- What is read in place of another value is refused. -/
theorem gives_wrongKind (wanted : String) (P : α → Prop) : Reader.Gives (wrongKind wanted) P := by
  refine .bind fun next => ?_
  split
  · exact .bind fun _ => .bind fun _ => .failHere _ _
  · exact .bind fun _ => .bind fun _ => .failHere _ _
  · exact .bind fun _ => .bind fun _ => .failHere _ _
  · exact .bind fun _ => .bind fun _ => .failHere _ _
  · exact .bind fun _ => .bind fun _ => .failHere _ _
  · exact .failHere _ _
  · exact .failHere _ _
  · split
    · exact .bind fun _ => .failHere _ _
    · exact .failAtNext _ _
  · exact .failAtNext _ _

theorem gives_count : count.Gives fun n => n < UInt64.size := by
  have hcount : ∀ negative, Reader.Gives (readCount negative) fun n => n < UInt64.size := by
    intro negative
    refine .bind_of (gives_readNumber negative) fun n hn => ?_
    cases n with
    | natural n => exact .pure hn
    | negative n => exact .failHere _ _
    | double x => exact .failHere _ _
  intro depth
  refine .bind fun next => ?_
  split
  · exact .failAtNext _ _
  · exact .bind fun _ => hcount true
  · split
    · exact hcount false
    · exact gives_wrongKind _ _

theorem Gives.optional (h : d.Gives P) : d.optional.Gives fun o => ∀ a ∈ o, P a := by
  intro depth
  refine .bind fun next => ?_
  split
  · exact .bind fun _ => .bind fun _ => .pure fun a ha => by cases ha
  · exact .bind_of (h depth) fun a ha => .pure fun b hb => Option.some.inj hb ▸ ha

theorem Gives.orBlank [Inhabited α] (h : d.Gives P) (hblank : P default) : d.orBlank.Gives P := by
  refine h.optional.map fun o ho => ?_
  cases o with
  | none => exact hblank
  | some a => exact ho a rfl

theorem Gives.list (h : d.Gives P) : d.list.Gives fun as => ∀ a ∈ as, P a := by
  intro depth
  refine .bind fun next => ?_
  split
  · exact .failAtNext _ _
  · exact gives_inSquare (fun inner => gives_readItems (h inner)) depth
  · exact gives_wrongKind _ _

end Decoder

/-! ## Records -/

/-- A field keeps a property of the record, whatever it sets. -/
def Field.Keeps {α : Type} (f : Field α) (P : α → Prop) : Prop :=
  f.decoder.Gives fun set => ∀ a, P a → P (set a)

/-- A field keeps what holds of the record with any value that its decoder gives. -/
theorem Field.Keeps.of_gives {α β : Type} {f : Field α} {d : Decoder β} {set : β → α → α}
    {Q : β → Prop} {P : α → Prop} (hd : d.Gives Q) (hf : f.decoder = d.sets set)
    (hset : ∀ x, Q x → ∀ a, P a → P (set x a)) : f.Keeps P := by
  rw [Field.Keeps, hf]
  exact hd.map hset

/-- A field keeps what holds of the record whatever the field is set to. -/
theorem Field.Keeps.of_sets {α β : Type} {f : Field α} {d : Decoder β} {set : β → α → α}
    {P : α → Prop} (hf : f.decoder = d.sets set) (hset : ∀ x a, P a → P (set x a)) : f.Keeps P :=
  .of_gives d.gives_true hf fun x _ => hset x

namespace Record

variable {α : Type} {r : Record α} {P : α → Prop}

/-- The values of keys that name no field keep a property of the record. -/
def OthersKeep (r : Record α) (P : α → Prop) : Prop :=
  ∀ other, r.other = some other → ∀ key, r.field? key = none →
    (other key).Gives fun set => ∀ a, P a → P (set a)

/-- Values that are skipped change nothing. -/
theorem othersKeep_of_none (hother : r.other = none) : r.OthersKeep P := by
  intro other h
  rw [hother] at h
  cases h

theorem gives_readMember (hothers : r.OthersKeep P) (hfields : ∀ f ∈ r.fields, f.Keeps P)
    (depth : Nat) (key : String) {p : Progress α} (hp : P p.1) :
    Reader.Gives (r.readMember depth key p) fun q => P q.1 := by
  rw [readMember]
  split
  · next f hf =>
    split
    · exact .failOpen _ _
    · refine .bind fun _ => .bind_of (hfields f (List.mem_of_find?_eq_some hf) depth) ?_
      exact fun set hset => .pure (hset p.1 hp)
  · next hkey =>
    refine .bind fun _ => ?_
    split
    · exact .bind fun _ => .pure hp
    · next other hother =>
      exact .bind_of (hothers other hother key hkey depth) fun set hset => .pure (hset p.1 hp)

theorem gives_readObject (hothers : r.OthersKeep P) (hfields : ∀ f ∈ r.fields, f.Keeps P)
    (hblank : P r.blank) (depth : Nat) : Reader.Gives (r.readObject depth) P := by
  have hmembers : Reader.Gives (readMembers (r.readMember depth) (r.blank, [])) fun q => P q.1 :=
    gives_readMembers (fun key p hp => gives_readMember hothers hfields depth key hp) hblank
  refine .bind_of hmembers fun (a, seen) hq => ?_
  dsimp only
  split
  · exact .failOpen _ _
  · exact .pure hq

theorem gives_readFields (depth : Nat) (fs : List (Field α)) (hfields : ∀ f ∈ fs, f.Keeps P)
    (index : Nat) {a : α} (ha : P a) : Reader.Gives (r.readFields depth index fs a) P := by
  induction fs generalizing index a with
  | nil => exact .pure ha
  | cons f fs ih =>
    obtain ⟨hf, hfs⟩ := List.forall_mem_cons.mp hfields
    refine .bind fun more => ?_
    split
    · exact .bind_of (hf depth) fun set hset => ih hfs _ (hset a ha)
    · split
      · exact .failOpen _ _
      · exact ih hfs _ ha

end Record

namespace Decoder

variable {α : Type} {r : Record α} {P : α → Prop}

/-- A record has what its blank form has and every value keeps, be it the value of a field or of
another key. -/
theorem gives_openRecord (hothers : r.OthersKeep P) (hfields : ∀ f ∈ r.fields, f.Keeps P)
    (hblank : P r.blank) : (record r).Gives P := by
  intro depth
  refine .bind fun next => ?_
  split
  · exact .failAtNext _ _
  · exact gives_inCurly (Record.gives_readObject hothers hfields hblank) depth
  · split
    · exact gives_wrongKind _ _
    · exact gives_inSquare (fun d => Record.gives_readFields d r.fields hfields 0 hblank) depth
  · exact gives_wrongKind _ _

/-- A record of fields alone has what its blank form has and every field keeps. -/
theorem gives_record (hother : r.other = none) (hfields : ∀ f ∈ r.fields, f.Keeps P)
    (hblank : P r.blank) : (record r).Gives P :=
  gives_openRecord (Record.othersKeep_of_none hother) hfields hblank

end Decoder

end Pipewright.Json
