import Pipewright.Proofs.Json.Values
import Pipewright.Proofs.Results
import Pipewright.Run.Registry

/-!
# What is written for a request

A request is written with the members that it knows first and the others behind them, and of members
under one key the last one stays.  So the registry finds under the key of the id what the request
keeps there among the others, if it keeps anything there, and else its id.

A request that has been read keeps nothing there, since the id has been taken out.  What is written
for it is an entry of the run with its id, and of no other run.  A request that is put together in
another way may keep the id of another run, and is then written as an entry of that one.

* `RunRequest.known`, `RunRequest.members_eq`: the members of a request.
* `RunRequest.Formed`, `RunRequest.Formed.member?_id`: what a request in form is written with.
* `RunRequest.PosesAs`: requests that are written with the id of another run.
* `RunRequest.Received`, `RunRequest.received_of_load`: requests that have been read.
* `RunRequest.Received.isEntryOf_iff`: the run whose entry is written for one.
-/

namespace Pipewright

open Json

namespace RunRequest

variable {r : RunRequest} {key : String}

/-! ## The members of a request -/

/-- The keys that have to be there. -/
def requiredKeys : List String := ["run_id", "working_dir", "pipeline_path"]

/-- The keys that a request knows and that need not be there. -/
def optionalKeys : List String :=
  ["run_name", "description", "pipeline_name", "pipeline_rev", "status", "created_at"]

/-- The keys that a request knows. -/
def knownKeys : List String := requiredKeys ++ optionalKeys

/-- What stands under the keys that the request knows. -/
def known (r : RunRequest) : List (String × Option Value) :=
  [("run_id", some (.string r.id)), ("working_dir", some (.string r.workingDirectory)),
    ("pipeline_path", some (.string r.pipelinePath)), ("run_name", r.name.map .string),
    ("description", r.description.map .string), ("pipeline_name", r.pipelineName.map .string),
    ("pipeline_rev", r.pipelineRevision.map .string), ("status", r.status.map .string),
    ("created_at", r.createdAt)]

theorem nodup_knownKeys : knownKeys.Nodup := by decide

theorem members_eq (r : RunRequest) :
    r.members = (r.known.flatMap fun m => memberOf m.1 m.2) ++ r.extra := by
  simp only [members, known, memberOf, List.flatMap_cons, List.flatMap_nil, Option.map_some,
    Option.toList_some, List.append_assoc, List.cons_append, List.nil_append]

/-- A member for a value that may be there has this value. -/
theorem mem_memberOf {v : Option Value} {m : String × Value} (h : m ∈ memberOf key v) :
    m.2 ∈ v := by
  cases v with
  | none => cases h
  | some w =>
    obtain rfl := List.mem_singleton.mp h
    rfl

/-- A member for a value that may be there stands under its key alone. -/
theorem lookup_memberOf (key k : String) (o : Option Value) :
    (memberOf key o).lookup k = if k = key then o else none := by
  cases o with
  | none => simp [memberOf]
  | some v => simp [memberOf, lookup_cons_eq]

/-- Members for values that may be there, under different keys. -/
theorem lookup_flatMap_memberOf {t : List (String × Option Value)} (ht : (t.map Prod.fst).Nodup)
    (key : String) : (t.flatMap fun m => memberOf m.1 m.2).lookup key = (t.lookup key).join := by
  induction t with
  | nil => rfl
  | cons m t ih =>
    obtain ⟨k, o⟩ := m
    rw [List.map_cons, List.nodup_cons] at ht
    rw [List.flatMap_cons, List.lookup_append, lookup_memberOf, lookup_cons_eq, ih ht.2]
    by_cases hkey : key = k
    · have hnone : t.lookup key = none := lookup_eq_none_iff_notMem.mpr (hkey ▸ ht.1)
      rw [if_pos hkey, if_pos hkey, hnone, Option.join_none, Option.or_none, Option.join_some]
    · rw [if_neg hkey, if_neg hkey, Option.none_or]

theorem sublist_memberOf (t : List (String × Option Value)) :
    ((t.flatMap fun m => memberOf m.1 m.2).map Prod.fst).Sublist (t.map Prod.fst) := by
  induction t with
  | nil => exact .slnil
  | cons m t ih =>
    obtain ⟨k, o⟩ := m
    cases o with
    | none => exact ih.cons k
    | some v => exact ih.cons_cons k

/-! ## Requests in form -/

/-- The values of the request are in form, and so is the object of what it does not know: numbers of
64 bits, and objects with their keys in order, each there once.  No JSON value is kept otherwise. -/
structure Formed (r : RunRequest) : Prop where
  createdAt : ∀ v ∈ r.createdAt, v.Formed
  extra : (Value.object r.extra).Formed

/-- What stands under the keys that the request knows is in form. -/
theorem Formed.known (hr : r.Formed) {m : String × Option Value} (hm : m ∈ r.known) :
    ∀ v ∈ m.2, v.Formed := by
  have htext : ∀ o : Option String, ∀ v ∈ o.map Value.string, v.Formed := by
    intro o v hv
    obtain ⟨s, -, rfl⟩ := Option.map_eq_some_iff.mp hv
    exact .string s
  have hsome : ∀ s : String, ∀ v ∈ some (Value.string s), v.Formed := fun s => htext (some s)
  have hall : ∀ m ∈ r.known, ∀ v ∈ m.2, v.Formed := by
    unfold RunRequest.known
    iterate 9 rw [List.forall_mem_cons]
    exact ⟨hsome _, hsome _, hsome _, htext _, htext _, htext _, htext _, htext _, hr.createdAt,
      List.forall_mem_nil _⟩
  exact hall m hm

/-- What is written for a request has its keys in order. -/
theorem Formed.formed (hr : r.Formed) : r.toSortedValue.Formed := by
  refine .object (keysInOrder_sortKeys _) fun m hm => ?_
  have hmem : m ∈ r.members := mem_of_mem_sortKeys hm
  rw [members_eq] at hmem
  obtain hm | hm := List.mem_append.mp hmem
  · obtain ⟨k, hk, hm⟩ := List.mem_flatMap.mp hm
    exact hr.known hk _ (mem_memberOf hm)
  · cases hr.extra with
    | object _ hextra => exact hextra m hm

/-- Under the key of the id stands what the request keeps there among the others, or its id. -/
theorem Formed.member?_id (hr : r.Formed) : r.toSortedValue.member? "run_id" =
    some ((r.extra.lookup "run_id").getD (.string r.id)) := by
  have hknown : (r.known.map Prod.fst).Nodup := nodup_knownKeys
  have hpart : ((r.known.flatMap fun m => memberOf m.1 m.2).map Prod.fst).Nodup :=
    (sublist_memberOf r.known).nodup hknown
  have hid : (r.known.lookup "run_id").join = some (.string r.id) := rfl
  cases hr.extra with
  | object hkeys _ =>
    calc (sortKeys r.members).lookup "run_id"
      _ = r.members.reverse.lookup "run_id" := lookup_sortKeys _ _
      _ = (r.extra.lookup "run_id").or (some (.string r.id)) := by
        rw [members_eq, List.reverse_append, List.lookup_append,
          lookup_reverse_of_nodup hkeys.nodup, lookup_reverse_of_nodup hpart,
          lookup_flatMap_memberOf hknown, hid]
      _ = some ((r.extra.lookup "run_id").getD (.string r.id)) := by
        cases r.extra.lookup "run_id" <;> rfl

/-- The request keeps the id of another run among what it does not know, and so is written with that
id in place of its own. -/
def PosesAs (r : RunRequest) (id : String) : Bool :=
  r.id ≠ id && (r.extra.lookup "run_id").bind Value.text? = some id

/-- What is written for a request is an entry of the run with its id, unless it poses as another. -/
theorem Formed.posesAs_or_eq (hr : r.Formed) {id : String}
    (hentry : isEntryOf id r.toSortedValue = true) : r.PosesAs id = true ∨ r.id = id := by
  by_cases hid : r.id = id
  · exact .inr hid
  rw [isEntryOf, hr.member?_id, decide_eq_true_iff, Option.bind_some] at hentry
  rw [PosesAs, Bool.and_eq_true, decide_eq_true_iff, decide_eq_true_iff]
  refine .inl ⟨hid, ?_⟩
  cases hextra : r.extra.lookup "run_id" with
  | none =>
    rw [hextra] at hentry
    exact absurd (Option.some.inj hentry) hid
  | some v =>
    rw [hextra] at hentry
    exact hentry

/-! ## Requests that have been read -/

/-- The request is in form, and keeps nothing under the key of its id. -/
structure Received (r : RunRequest) : Prop extends r.Formed where
  unknown : ∀ m ∈ r.extra, m.1 ≠ "run_id"

theorem gives_decoder : decoder.Gives Received := by
  have hvalue : Decoder.value.Gives Value.Formed :=
    fun depth => (Reader.gives_readValue depth).mono fun _ hv => hv.1
  refine Decoder.gives_openRecord ?others ?fields
    ⟨⟨nofun, .object .nil (List.forall_mem_nil _)⟩, List.forall_mem_nil _⟩
  case others =>
    rintro _ ⟨⟩ key hkey
    refine hvalue.map fun v hv r hr => ?_
    cases hr.extra with
    | object hkeys hextra =>
      refine ⟨⟨hr.createdAt, .object (keysInOrder_putKey hkeys key v) fun m hm => ?_⟩,
        fun m hm => ?_⟩
      · obtain rfl | hm := mem_putKey hm
        · exact hv
        · exact hextra m hm
      · obtain rfl | hm := mem_putKey hm
        · rintro rfl
          cases hkey
        · exact hr.unknown m hm
  case fields =>
    iterate 9 rw [List.forall_mem_cons]
    refine ⟨?id, ?working, ?pipeline, ?name, ?description, ?pipelineName, ?revision, ?status,
      ?created, List.forall_mem_nil _⟩
    case created => exact .of_gives hvalue.optional rfl fun _ hv _ hr => ⟨⟨hv, hr.extra⟩, hr.unknown⟩
    all_goals exact .of_sets rfl fun _ _ hr => ⟨⟨hr.createdAt, hr.extra⟩, hr.unknown⟩

/-- A text that is decoded is loaded for what it is decoded to. -/
theorem load_of_parse {p : Path} {d : Disk} {text : String} (hread : d.readText p = .ok text)
    (hparse : decoder.parse text = .ok r) : load p d = .ok r := by
  rw [load, hread]
  exact mapError_eq_ok_iff.mpr hparse

theorem received_of_load {p : Path} {d : Disk} (h : load p d = .ok r) : r.Received := by
  obtain ⟨text, -, hparse⟩ := bind_eq_ok_iff.mp h
  refine Reader.Gives.of_run (.bind_of (gives_decoder _) fun a ha => .bind fun _ => .pure ha)
    (mapError_eq_ok_iff.mp hparse)

theorem Received.lookup_id (hr : r.Received) : r.extra.lookup "run_id" = none := by
  rw [lookup_eq_none_iff_notMem, List.mem_map]
  rintro ⟨m, hm, hkey⟩
  exact hr.unknown m hm hkey

/-- What is written for a request that has been read is an entry of the run with its id, and of no
other one. -/
theorem Received.isEntryOf_iff (hr : r.Received) {id : String} :
    isEntryOf id r.toSortedValue = true ↔ r.id = id := by
  rw [isEntryOf, hr.member?_id, hr.lookup_id, decide_eq_true_iff]
  exact Option.some_inj

/-- A request that has been read poses as no other one. -/
theorem Received.posesAs_eq_false (hr : r.Received) (id : String) : r.PosesAs id = false := by
  rw [PosesAs, hr.lookup_id, Bool.and_eq_false_iff]
  exact .inr rfl

end RunRequest

end Pipewright
