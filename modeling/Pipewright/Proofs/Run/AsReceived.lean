import Mathlib
import Pipewright.Proofs.Disk.Changes
import Pipewright.Proofs.Json.Alongside
import Pipewright.Proofs.Json.OpenRecords
import Pipewright.Proofs.Run.Received

/-!
# Requests are kept as received

A request is taken apart when it is read: the keys that it knows go into fields, each of a type of
its own, and the others into a list.  When it is written the parts are put together again.  Nothing
is lost on the way but nulls of keys that need not be there, nothing is written twice, and no key
comes into the wrong part.

While a request is being read, what it has taken so far and the members that have been read so far
mirror each other; each member keeps this up, whatever its key.

* `RunRequest.shown`: what a request tells under a key.
* `RunRequest.Divided`: requests whose known and other keys are apart.
* `RunRequest.Mirrors`, `RunRequest.matches_decoder`: a request and the members that it has been read
  from.
* `RunRequest.Mirrors.toSortedValue_eq`: the members that are written.
* `RunRequest.Divided.accepts_toValue`: a request is read back from what is written for it.
* `RunRequest.load_asReceived`: both, for any request that has been read.
-/

namespace Pipewright

open Json

namespace RunRequest

/-! ## What a request tells -/

/-- The members that a request does not keep: nulls of keys that need not be there. -/
def Dropped : String × Value → Bool
  | (key, .null) => optionalKeys.contains key
  | _ => false

theorem dropped_of_ne_null {key : String} {v : Value} (h : v ≠ .null) :
    Dropped (key, v) = false := by
  cases v with
  | null => exact absurd rfl h
  | _ => rfl

theorem dropped_of_unknown {key : String} (h : key ∉ knownKeys) (v : Value) :
    Dropped (key, v) = false := by
  cases v with
  | null =>
    show optionalKeys.contains key = false
    rw [Bool.eq_false_iff, ne_eq, List.contains_iff_mem]
    exact fun hkey => h (List.mem_append_right _ hkey)
  | _ => rfl

/-- What the request tells under a key. -/
def shown (r : RunRequest) (key : String) : Option Value :=
  (r.known.lookup key).getD (r.extra.lookup key)

variable {r : RunRequest} {key : String}

/-- Under a key that it does not know a request tells what it has kept there. -/
theorem shown_of_unknown (h : key ∉ knownKeys) : r.shown key = r.extra.lookup key := by
  have hnone : r.known.lookup key = none := lookup_eq_none_iff_notMem.mpr h
  rw [shown, hnone, Option.getD_none]

/-! ## A request and its members -/

/-- The request is divided as it should be: its other values stand in order, under keys that it does
not know. -/
structure Divided (r : RunRequest) : Prop where
  inOrder : KeysInOrder r.extra
  unknown : ∀ m ∈ r.extra, m.1 ∉ knownKeys

/-- The request with the keys that have been seen, and the members that have been read: under each
key the request tells what the member with the key does, unless that is dropped.  The keys that have
to be there are told once they have been seen. -/
structure Mirrors (p : Record.Progress RunRequest) (ms : List (String × Value)) : Prop where
  inOrder : KeysInOrder ms
  divided : p.1.Divided
  shown : ∀ key, (key ∈ requiredKeys → key ∈ p.2) →
    p.1.shown key = (ms.lookup key).filter fun v => !Dropped (key, v)

variable {p : Record.Progress RunRequest} {ms : List (String × Value)} {seen : List String}
  {v : Value}

/-- A request goes on mirroring the members when both get one more, if under other keys it tells what
it did. -/
theorem Mirrors.put (h : Mirrors p ms) (hdivided : r.Divided)
    (hshown : ∀ k, r.shown k =
      if k = key then (some v).filter fun v => !Dropped (key, v) else p.1.shown k)
    (hseen : ∀ k ∈ requiredKeys, k ∈ seen → k = key ∨ k ∈ p.2) :
    Mirrors (r, seen) (putKey ms key v) := by
  refine ⟨keysInOrder_putKey h.inOrder key v, hdivided, fun k hk => ?_⟩
  rw [hshown, lookup_putKey]
  by_cases hkey : k = key
  · rw [if_pos hkey, if_pos hkey, hkey]
  · rw [if_neg hkey, if_neg hkey]
    exact h.shown k fun hrequired => (hseen k hrequired (hk hrequired)).resolve_left hkey

/-- Setting a field changes what the request tells under the key of the field, and nothing else. -/
def Puts (set : RunRequest → RunRequest) (key : String) (o : Option Value) : Prop :=
  ∀ r, (set r).extra = r.extra ∧ ∀ k, (set r).shown k = if k = key then o else r.shown k

theorem Mirrors.set (h : Mirrors p ms) {set : RunRequest → RunRequest}
    (hset : Puts set key ((some v).filter fun v => !Dropped (key, v))) :
    Mirrors (set p.1, key :: p.2) (putKey ms key v) := by
  obtain ⟨hextra, hshown⟩ := hset p.1
  have hdivided : (set p.1).Divided :=
    ⟨hextra ▸ h.divided.inOrder, hextra ▸ h.divided.unknown⟩
  exact h.put hdivided hshown fun k _ hk => List.mem_cons.mp hk

/-! ## Reading the members -/

/-- A field that has to be there is told as the text that it is. -/
theorem tracks_text {f : Json.Field RunRequest} {set : String → RunRequest → RunRequest}
    (hf : f.decoder = Decoder.text.sets set) (haliases : f.aliases = [])
    (hset : ∀ s, Puts (set s) f.name (some (.string s))) : f.Tracks Mirrors := by
  intro key hkey
  rw [haliases] at hkey
  obtain rfl : key = f.name := by simpa using hkey
  rw [hf]
  refine Decoder.matches_text.map ?_
  rintro s _ rfl p ms h
  exact h.set (hset s)

/-- A field that need not be there is told as the value that it holds, if any. -/
theorem tracks_optional {β : Type} {f : Json.Field RunRequest} {d : Decoder β} (toValue : β → Value)
    {set : Option β → RunRequest → RunRequest} (hd : d.Matches fun b v => v = toValue b)
    (hf : f.decoder = d.optional.sets set) (haliases : f.aliases = []) (hkey : f.name ∈ optionalKeys)
    (hset : ∀ o, Puts (set o) f.name (o.map toValue)) : f.Tracks Mirrors := by
  intro key hname
  rw [haliases] at hname
  obtain rfl : key = f.name := by simpa using hname
  rw [hf]
  refine hd.optional.map ?_
  rintro o v hov p ms h
  refine h.set ?_
  obtain ⟨rfl, rfl⟩ | ⟨hv, b, rfl, rfl⟩ := hov
  · have hdropped : Dropped (f.name, .null) = true := List.contains_iff_mem.mpr hkey
    rw [Option.filter_some, hdropped]
    exact hset none
  · rw [Option.filter_some, dropped_of_ne_null hv]
    exact hset (some b)

/-- The value of a key that the request does not know is kept under that key. -/
theorem Mirrors.putExtra (h : Mirrors p ms) (hkey : key ∉ knownKeys) (v : Value) :
    Mirrors ({ p.1 with extra := putKey p.1.extra key v }, p.2) (putKey ms key v) := by
  refine h.put ⟨keysInOrder_putKey h.divided.inOrder key v, ?_⟩ ?_ fun k _ hk => .inr hk
  · intro m hm
    obtain rfl | hm := mem_putKey hm
    · exact hkey
    · exact h.divided.unknown m hm
  · intro k
    rw [Option.filter_some, dropped_of_unknown hkey]
    by_cases hk : k = key
    · rw [if_pos hk, hk, shown_of_unknown hkey, lookup_putKey, if_pos rfl]
      rfl
    · rw [if_neg hk]
      show (p.1.known.lookup k).getD ((putKey p.1.extra key v).lookup k) = _
      rw [lookup_putKey, if_neg hk]
      rfl

/-- The blank request mirrors no members, for it tells nothing under the keys that need not be
there. -/
theorem mirrors_blank : Mirrors (default, []) [] := by
  refine ⟨.nil, ⟨.nil, List.forall_mem_nil _⟩, fun key hkey => ?_⟩
  have hother : key ∉ requiredKeys := fun hrequired => List.not_mem_nil (hkey hrequired)
  simp only [requiredKeys, List.mem_cons, List.not_mem_nil, or_false, not_or] at hother
  obtain ⟨hid, hworking, hpipeline⟩ := hother
  show ((known default).lookup key).getD none = none
  simp only [known, lookup_cons_eq, if_neg hid, if_neg hworking, if_neg hpipeline]
  split_ifs <;> rfl

/-- A request that is read mirrors the members of an object, and all keys that have to be there have
been seen. -/
theorem matches_decoder : decoder.Matches fun r v => ∃ ms seen, v = .object ms ∧
    Mirrors (r, seen) ms ∧ ∀ key ∈ requiredKeys, key ∈ seen := by
  have hrecord : decoder.Matches _ := Decoder.matches_openRecord (I := Mirrors) rfl ?others ?fields
    mirrors_blank
  case others =>
    intro key hkey
    refine Decoder.matches_value.map ?_
    rintro v _ rfl p ms h
    exact h.putExtra (Record.field?_eq_none_iff.mp hkey) _
  case fields =>
    iterate 9 rw [List.forall_mem_cons]
    refine ⟨tracks_text rfl rfl ?id, tracks_text rfl rfl ?working, tracks_text rfl rfl ?pipeline,
      tracks_optional .string Decoder.matches_text rfl rfl (by decide) ?name,
      tracks_optional .string Decoder.matches_text rfl rfl (by decide) ?description,
      tracks_optional .string Decoder.matches_text rfl rfl (by decide) ?pipelineName,
      tracks_optional .string Decoder.matches_text rfl rfl (by decide) ?revision,
      tracks_optional .string Decoder.matches_text rfl rfl (by decide) ?status,
      tracks_optional (fun v => v) Decoder.matches_value rfl rfl (by decide) ?created,
      List.forall_mem_nil _⟩
    all_goals
      refine fun x r => ⟨rfl, fun k => ?_⟩
      split
      · next hk =>
        subst hk
        first | rfl | cases x <;> rfl
      · next hk => simp only [shown, known, lookup_cons_eq, if_neg hk]
  refine hrecord.mono ?_
  rintro r _ ⟨ms, seen, rfl, h, hmissing⟩
  refine ⟨ms, seen, rfl, h, ?_⟩
  have hseen := Record.missing?_eq_none_iff.mp hmissing
  rw [List.forall_mem_cons, List.forall_mem_cons, List.forall_mem_cons] at hseen
  obtain ⟨hid, hworking, hpipeline, -⟩ := hseen
  rw [requiredKeys, List.forall_mem_cons, List.forall_mem_cons, List.forall_mem_singleton]
  exact ⟨hid rfl, hworking rfl, hpipeline rfl⟩

/-! ## What is written -/

theorem Divided.lookup_members (h : r.Divided) (key : String) :
    r.members.lookup key = r.shown key := by
  have hknown : (r.known.map Prod.fst).Nodup := nodup_knownKeys
  rw [members_eq, List.lookup_append, lookup_flatMap_memberOf hknown, shown]
  by_cases hkey : key ∈ knownKeys
  · have hnone : r.extra.lookup key = none := by
      rw [lookup_eq_none_iff_notMem, List.mem_map]
      rintro ⟨m, hm, rfl⟩
      exact h.unknown m hm hkey
    rw [hnone, Option.or_none]
    cases r.known.lookup key <;> rfl
  · have hnone : r.known.lookup key = none := lookup_eq_none_iff_notMem.mpr hkey
    rw [hnone]
    rfl

/-- No key is written twice. -/
theorem Divided.nodup_members (h : r.Divided) : (r.members.map Prod.fst).Nodup := by
  have hpart : ((r.known.flatMap fun m => memberOf m.1 m.2).map Prod.fst).Sublist knownKeys :=
    sublist_memberOf r.known
  rw [members_eq, List.map_append, List.nodup_append]
  refine ⟨hpart.nodup nodup_knownKeys, h.inOrder.nodup, ?_⟩
  rintro key hkey _ hother rfl
  obtain ⟨m, hm, rfl⟩ := List.mem_map.mp hother
  exact h.unknown m hm (hpart.subset hkey)

/-- What is written for a request are the members that it has been read from, apart from those that
are dropped. -/
theorem Mirrors.toSortedValue_eq (h : Mirrors (r, seen) ms)
    (hseen : ∀ key ∈ requiredKeys, key ∈ seen) :
    r.toSortedValue = .object (ms.filter fun m => !Dropped m) := by
  refine congrArg Value.object (KeysInOrder.eq_of_lookup (keysInOrder_sortKeys _)
    (h.inOrder.filter _) fun key => ?_)
  rw [lookup_sortKeys_of_nodup h.divided.nodup_members, h.divided.lookup_members,
    h.shown key (hseen key), h.inOrder.lookup_filter]

/-! ## Reading what is written -/

/-- A field that need not be there is read back, or is absent. -/
theorem told_memberOf {β : Type} {t : Record RunRequest}
    {other : String → Decoder (RunRequest → RunRequest)} {need : Nat} {a b c : RunRequest}
    {f : Json.Field RunRequest} {fs : List (Json.Field RunRequest)} {d : Decoder β}
    {toValue : β → Value} {set : Option β → RunRequest → RunRequest} {o : Option β}
    (hf : f.decoder = d.optional.sets set) (hrequired : f.required = false) (hnone : set none a = a)
    (hset : set o a = b) (h : ∀ x ∈ o, d.Accepts need (toValue x) x ∧ toValue x ≠ .null)
    (hrest : t.Told other need b fs ms c) :
    t.Told other need a (f :: fs) (memberOf f.name (o.map toValue) ++ ms) c := by
  subst hset
  cases o with
  | none =>
    rw [hnone] at hrest
    exact .absent hrequired hrest
  | some x =>
    obtain ⟨haccepts, hv⟩ := h x rfl
    exact .sets (haccepts.optional hv) hf hrest

/-- Other values are put in one after the other. -/
theorem foldl_putExtra (ms : List (String × Value)) (a : RunRequest) :
    ms.foldl (fun a m => { a with extra := putKey a.extra m.1 m.2 }) a =
      { a with extra := ms.foldl (fun soFar m => putKey soFar m.1 m.2) a.extra } := by
  induction ms generalizing a with
  | nil => rfl
  | cons m ms ih => rw [List.foldl_cons, List.foldl_cons, ih]

/-- A request is read back when the values that it has kept as they are are read back. -/
theorem Divided.accepts_toValue (h : r.Divided) {need : Nat}
    (hcreated : ∀ v ∈ r.createdAt, Decoder.value.Accepts need v v ∧ v ≠ .null)
    (hextra : ∀ m ∈ r.extra, Decoder.value.Accepts need m.2 m.2) :
    decoder.Accepts (need + 1) r.toValue r := by
  have htext : ∀ s, Decoder.text.Accepts need (.string s) s := fun s =>
    (Decoder.accepts_text s).mono (Nat.zero_le need)
  have hstring : ∀ o : Option String, ∀ s ∈ o,
      Decoder.text.Accepts need (.string s) s ∧ Value.string s ≠ .null := fun o s _ =>
    ⟨htext s, by simp⟩
  have hmembers : r.members = ("run_id", .string r.id) :: ("working_dir", .string r.workingDirectory)
      :: ("pipeline_path", .string r.pipelinePath) :: (memberOf "run_name" (r.name.map .string) ++
      (memberOf "description" (r.description.map .string) ++
      (memberOf "pipeline_name" (r.pipelineName.map .string) ++
      (memberOf "pipeline_rev" (r.pipelineRevision.map .string) ++
      (memberOf "status" (r.status.map .string) ++
      (memberOf "created_at" (r.createdAt.map fun v => v) ++ r.extra)))))) := by
    rw [Option.map_id']
    simp only [members, List.append_assoc, List.cons_append, List.nil_append]
  rw [toValue, hmembers]
  refine Decoder.accepts_openRecord nodup_knownKeys rfl ?_
  refine .sets (htext _) rfl (.sets (htext _) rfl (.sets (htext _) rfl ?_))
  -- each step names the request as far as it has been told, for the next one builds on it
  let told : RunRequest := { r with
    name := none, description := none, pipelineName := none, pipelineRevision := none
    status := none, createdAt := none, extra := [] }
  show Record.Told _ _ need told _ _ r
  refine told_memberOf (b := { told with name := r.name }) rfl rfl rfl rfl (hstring _) ?_
  refine told_memberOf (b := { told with name := r.name, description := r.description })
    rfl rfl rfl rfl (hstring _) ?_
  refine told_memberOf (b := { r with
    pipelineRevision := none, status := none, createdAt := none, extra := [] })
    rfl rfl rfl rfl (hstring _) ?_
  refine told_memberOf (b := { r with status := none, createdAt := none, extra := [] })
    rfl rfl rfl rfl (hstring _) ?_
  refine told_memberOf (b := { r with createdAt := none, extra := [] })
    rfl rfl rfl rfl (hstring _) ?_
  refine told_memberOf (b := { r with extra := [] }) rfl rfl rfl rfl hcreated ?_
  refine .others (fun m hm => Record.field?_eq_none_iff.mpr (h.unknown m hm)) hextra ?_
  have hsorted : r.extra.foldl (fun soFar m => putKey soFar m.1 m.2) [] = r.extra :=
    h.inOrder.sortKeys_eq
  rw [foldl_putExtra, hsorted]

/-- What a request tells has been received, and is none of the members that are dropped. -/
theorem Mirrors.mem_of_shown (h : Mirrors (r, seen) ms) (hseen : ∀ key ∈ requiredKeys, key ∈ seen)
    (hv : r.shown key = some v) : (key, v) ∈ ms ∧ Dropped (key, v) = false := by
  rw [h.shown key (hseen key), Option.filter_eq_some_iff, lookup_eq_some_iff_mem h.inOrder.nodup]
    at hv
  exact ⟨hv.1, by simpa using hv.2⟩

/-- A request that has been read from members without doubles is read back. -/
theorem Mirrors.accepts_toValue (h : Mirrors (r, seen) ms) (hseen : ∀ key ∈ requiredKeys, key ∈ seen)
    {need : Nat} (hms : ∀ m ∈ ms, Decoder.value.Accepts need m.2 m.2) :
    decoder.Accepts (need + 1) r.toValue r := by
  refine h.divided.accepts_toValue (fun v hv => ?_) fun m hm => ?_
  · have hshown : r.shown "created_at" = some v := hv
    obtain ⟨hmem, hdropped⟩ := h.mem_of_shown hseen hshown
    refine ⟨hms _ hmem, ?_⟩
    rintro rfl
    cases hdropped
  · have hshown : r.shown m.1 = some m.2 := by
      rw [shown_of_unknown (h.divided.unknown m hm),
        lookup_eq_some_iff_mem h.divided.inOrder.nodup]
      exact hm
    exact hms m (h.mem_of_shown hseen hshown).1

/-- Under the keys that a request does not know it keeps what it has received there. -/
theorem Mirrors.lookup_extra (h : Mirrors (r, seen) ms) (hseen : ∀ key ∈ requiredKeys, key ∈ seen)
    (hkey : key ∉ knownKeys) : r.extra.lookup key = ms.lookup key := by
  have hall : ∀ v, Dropped (key, v) = false := dropped_of_unknown hkey
  rw [← shown_of_unknown hkey, h.shown key (hseen key)]
  cases ms.lookup key with
  | none => rfl
  | some v => rw [Option.filter_some, hall v]; rfl

/-! ## Requests that have been read -/

/-- The value of a request is the object that has been received without the nulls of keys that need
not be there.  Every value of another key is kept under its key, and nothing else is kept with them.
Unless some number is a double, the request is read back from what is written for it. -/
theorem load_asReceived {p : Path} {d : Disk} (h : load p d = .ok r) :
    ∃ text ms, d.readText p = .ok text ∧ Decoder.value.parse text = .ok (.object ms) ∧
      r.toSortedValue = .object (ms.filter fun m => !Dropped m) ∧
      (∀ key, key ∉ knownKeys → r.extra.lookup key = ms.lookup key) ∧
      (∀ m ∈ r.extra, m.1 ∉ knownKeys) ∧
      ((Value.object ms).Whole → ∀ q e,
        e.readText q = .ok r.toValue.compact ∨ e.readText q = .ok r.toValue.pretty →
          load q e = .ok r) := by
  obtain ⟨text, hread, hparse⟩ := bind_eq_ok_iff.mp h
  have hread := mapError_eq_ok_iff.mp hread
  obtain ⟨_, hvalue, ms, seen, rfl, hmirrors, hseen⟩ :=
    matches_decoder.parse (mapError_eq_ok_iff.mp hparse)
  refine ⟨text, ms, hread, hvalue, hmirrors.toSortedValue_eq hseen,
    fun key hkey => hmirrors.lookup_extra hseen hkey, hmirrors.divided.unknown, ?_⟩
  intro hwhole q e htext
  obtain ⟨hformed, hwithin⟩ := Decoder.formed_of_parse hvalue
  cases hwhole with | object hwhole =>
  cases hformed with | object _ hformed =>
  cases hwithin with | object hwithin =>
  have hvalues : ∀ m ∈ ms, Decoder.value.Accepts 126 m.2 m.2 := fun m hm =>
    Decoder.accepts_value (hformed m hm) (hwhole m hm) (hwithin m hm)
  have haccepts : decoder.Accepts 127 r.toValue r := hmirrors.accepts_toValue hseen hvalues
  obtain htext | htext := htext
  · exact load_of_parse htext (Decoder.parse_compact haccepts (Nat.le_refl _))
  · exact load_of_parse htext (Decoder.parse_pretty haccepts (Nat.le_refl _))

/-! ### A request with nulls -/

/-- The text of a request with nulls under a key that it knows, under one that it does not know, and
inside a value. -/
def nullText : String :=
  "\x7b\"run_id\":\"a\",\"y\":\x7b\"n\":null\x7d,\"working_dir\":\"\",\"x\":null,\"status\":null," ++
    "\"pipeline_path\":\"\"\x7d"

/-- The members of the text. -/
def nullMembers : List (String × Value) :=
  [("pipeline_path", .string ""), ("run_id", .string "a"), ("status", .null),
    ("working_dir", .string ""), ("x", .null), ("y", .object [("n", .null)])]

/-- The request of the text. -/
def nullRequest : RunRequest where
  id := "a"
  workingDirectory := ""
  pipelinePath := ""
  extra := [("x", .null), ("y", .object [("n", .null)])]

/-- A disk with the text, and with what is written for the request. -/
def nullDisk : Disk where
  children := [("a", .file nullText.toUTF8 false),
    ("b", .file nullRequest.toValue.compact.toUTF8 false)]
  workingDirectory := []

theorem readText_nullDisk : nullDisk.readText "a" = .ok nullText ∧
    nullDisk.readText "b" = .ok nullRequest.toValue.compact :=
  ⟨Disk.readText_eq_ok_iff.mpr ⟨["a"], false, rfl, rfl, rfl⟩,
    Disk.readText_eq_ok_iff.mpr ⟨["b"], false, rfl, rfl, rfl⟩⟩

theorem load_nullText : load "a" nullDisk = .ok nullRequest := by
  have hparse : decoder.parse nullText = .ok nullRequest := by cbv
  exact load_of_parse readText_nullDisk.1 hparse

theorem nullMembers_whole : (Value.object nullMembers).Whole := by
  refine .object fun m hm => ?_
  simp only [nullMembers, List.mem_cons, List.not_mem_nil, or_false] at hm
  rcases hm with rfl | rfl | rfl | rfl | rfl | rfl
  · exact .string ""
  · exact .string "a"
  · exact .null
  · exact .string ""
  · exact .null
  · exact .object (by simp [Value.Whole.null])

/-- Only the null of the key that the request knows is gone, and the request is read back. -/
theorem load_nullText_asReceived :
    load "a" nullDisk = .ok nullRequest ∧
      nullRequest.toSortedValue = .object [("pipeline_path", .string ""), ("run_id", .string "a"),
        ("working_dir", .string ""), ("x", .null), ("y", .object [("n", .null)])] ∧
      load "b" nullDisk = .ok nullRequest := by
  obtain ⟨text, ms, hread, hparse, hvalue, -, -, hreload⟩ := load_asReceived load_nullText
  obtain rfl : nullText = text := Except.ok.inj (readText_nullDisk.1.symm.trans hread)
  have hmembers : Decoder.value.parse nullText = .ok (.object nullMembers) := by cbv
  obtain rfl : nullMembers = ms :=
    Value.object.inj (Except.ok.inj (hmembers.symm.trans hparse))
  exact ⟨load_nullText, hvalue, hreload nullMembers_whole "b" nullDisk (.inl readText_nullDisk.2)⟩

end RunRequest

end Pipewright
