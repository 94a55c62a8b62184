import Pipewright.Proofs.Json.Values

/-!
# Open records are read back

A record that takes the values of all keys is written with its fields in order, of which those that
hold nothing are left out, and with the values of other keys behind them.  It is read back from what
any layout writes for these members, when each field and each other key reads its value.

* `Record.Told`: what such members make of a record.
* `Record.Told.sets`, `Record.Told.others`: fields that are set, and the values of other keys.
* `Record.Told.membersRead`: reading them.
* `Decoder.accepts_openRecord`: the record is read back.
-/

namespace Pipewright.Json

open Reader

namespace Record

variable {α β : Type} {r : Record α} {other : String → Decoder (α → α)} {need : Nat} {a b : α}
  {fs : List (Field α)} {ms : List (String × Value)}

/-- The members are those of some fields in order, of which any that is not required may be absent,
and then those of keys that name no field.  Together they make one record of another. -/
inductive Told (r : Record α) (other : String → Decoder (α → α)) (need : Nat) :
    α → List (Field α) → List (String × Value) → α → Prop where
  | nil (a : α) : Told r other need a [] [] a
  | field {a b : α} {f : Field α} {v : Value} {set : α → α} {fs : List (Field α)}
      {ms : List (String × Value)} (h : f.decoder.Accepts need v set)
      (hrest : Told r other need (set a) fs ms b) :
      Told r other need a (f :: fs) ((f.name, v) :: ms) b
  | absent {a b : α} {f : Field α} {fs : List (Field α)} {ms : List (String × Value)}
      (h : f.required = false) (hrest : Told r other need a fs ms b) :
      Told r other need a (f :: fs) ms b
  | other {a b : α} {key : String} {v : Value} {set : α → α} {ms : List (String × Value)}
      (hkey : r.field? key = none) (h : (other key).Accepts need v set)
      (hrest : Told r other need (set a) [] ms b) :
      Told r other need a [] ((key, v) :: ms) b

/-- A field that sets a part of the record reads what its decoder reads. -/
theorem Told.sets {f : Field α} {v : Value} {d : Decoder β} {set : β → α → α} {x : β}
    (h : d.Accepts need v x) (hf : f.decoder = d.sets set)
    (hrest : r.Told other need (set x a) fs ms b) :
    r.Told other need a (f :: fs) ((f.name, v) :: ms) b := by
  refine .field ?_ hrest
  rw [hf]
  exact h.map set

/-- The values of other keys are put into the record one after the other. -/
theorem Told.others {put : String → Value → α → α} (hkeys : ∀ m ∈ ms, r.field? m.1 = none)
    (haccepts : ∀ m ∈ ms, Decoder.value.Accepts need m.2 m.2)
    (hb : ms.foldl (fun a m => put m.1 m.2 a) a = b) :
    r.Told (fun key => Decoder.value.sets (put key)) need a [] ms b := by
  induction ms generalizing a with
  | nil =>
    obtain rfl : a = b := hb
    exact .nil a
  | cons m ms ih =>
    obtain ⟨hm, hkeys⟩ := List.forall_mem_cons.mp hkeys
    obtain ⟨hv, haccepts⟩ := List.forall_mem_cons.mp haccepts
    exact .other hm (hv.map (put m.1)) (ih hkeys haccepts hb)

/-- A key names no field exactly when it is none of the names. -/
theorem field?_eq_none_iff {key : String} : r.field? key = none ↔ key ∉ r.names := by
  rw [field?, List.find?_eq_none, names, List.mem_flatMap]
  simp

/-- No field is missing exactly when those that are required have been set. -/
theorem missing?_eq_none_iff {seen : List String} :
    r.missing? seen = none ↔ ∀ f ∈ r.fields, f.required = true → f.name ∈ seen := by
  rw [missing?, Option.map_eq_none_iff, List.find?_eq_none]
  simp

/-- The members are read, and no field is missing behind them.  The names that have been seen are
those of fields before the ones that are still told, and all required ones of these. -/
theorem Told.membersRead (hnames : r.names.Nodup) (hother : r.other = some other)
    (h : r.Told other need a fs ms b) {done : List (Field α)} {seen : List String}
    (hfields : r.fields = done ++ fs) (hseen : ∀ name ∈ seen, name ∈ done.map Field.name)
    (hrequired : ∀ f ∈ done, f.required = true → f.name ∈ seen) (layout : Layout) (level : Nat)
    {depth : Nat} (hdepth : need ≤ depth) :
    ∃ seen', MembersRead layout level (r.readMember depth) (a, seen) ms (b, seen') ∧
      r.missing? seen' = none := by
  induction h generalizing done seen with
  | nil a =>
    rw [List.append_nil] at hfields
    exact ⟨seen, .nil _, missing?_eq_none_iff.mpr (hfields ▸ hrequired)⟩
  | @field a b f v set fs ms h _ ih =>
    have hsplit : r.fields = (done ++ [f]) ++ fs := by
      rw [hfields, List.append_assoc]
      rfl
    have hunseen : seen.contains f.name = false := by
      rw [Bool.eq_false_iff, ne_eq, List.contains_iff_mem]
      exact fun hmem => notMem_names hnames hfields (hseen _ hmem)
    have hseen' : ∀ name ∈ f.name :: seen, name ∈ (done ++ [f]).map Field.name := by
      rw [List.map_append, List.forall_mem_cons]
      exact ⟨List.mem_append_right _ List.mem_cons_self,
        fun name hname => List.mem_append_left _ (hseen name hname)⟩
    have hrequired' : ∀ g ∈ done ++ [f], g.required = true → g.name ∈ f.name :: seen := by
      rw [List.forall_mem_append, List.forall_mem_singleton]
      exact ⟨fun g hg hreq => List.mem_cons_of_mem _ (hrequired g hg hreq),
        fun _ => List.mem_cons_self⟩
    obtain ⟨seen', hmembers, hmissing⟩ := ih hsplit hseen' hrequired'
    refine ⟨seen', .cons (fun rest hrest => ?_) hmembers, hmissing⟩
    rw [readMember, field?_name hnames hfields]
    simp only [hunseen, Bool.false_eq_true, if_false]
    have hread := h layout level depth hdepth layout.space layout.blanks_space rest hrest
    exact .bind (reads_readColon _) (hread.bind_nil (.pure _ rest))
  | @absent a b f fs ms h _ ih =>
    have hsplit : r.fields = (done ++ [f]) ++ fs := by
      rw [hfields, List.append_assoc]
      rfl
    refine ih hsplit (fun name hname => ?_) fun g hg hreq => ?_
    · rw [List.map_append]
      exact List.mem_append_left _ (hseen name hname)
    · obtain hg | hg := List.mem_append.mp hg
      · exact hrequired g hg hreq
      · rw [List.mem_singleton.mp hg, h] at hreq
        cases hreq
  | @other a b key v set ms hkey h _ ih =>
    obtain ⟨seen', hmembers, hmissing⟩ := ih hfields hseen hrequired
    refine ⟨seen', .cons (fun rest hrest => ?_) hmembers, hmissing⟩
    rw [readMember, hkey, hother]
    have hread := h layout level depth hdepth layout.space layout.blanks_space rest hrest
    exact .bind (reads_readColon _) (hread.bind_nil (.pure _ rest))

end Record

namespace Decoder

variable {α : Type}

/-- A record that takes the values of all keys is read from an object that tells it. -/
theorem accepts_openRecord {r : Record α} {other : String → Decoder (α → α)} {need : Nat} {a : α}
    {ms : List (String × Value)} (hnames : r.names.Nodup) (hother : r.other = some other)
    (h : r.Told other need r.blank r.fields ms a) : (record r).Accepts (need + 1) (.object ms) a :=
  accepts_of_membersRead fun layout level _ hdepth =>
    h.membersRead hnames hother (List.nil_append _).symm (List.forall_mem_nil _)
      (List.forall_mem_nil _) layout level hdepth

end Decoder

end Pipewright.Json
