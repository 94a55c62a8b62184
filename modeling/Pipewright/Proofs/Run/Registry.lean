import Mathlib
import Pipewright.Proofs.Disk.Changes
import Pipewright.Proofs.Failures
import Pipewright.Proofs.Json.Rereads
import Pipewright.Proofs.Run.Received

/-!
# The registry keeps its entries

Each time a request is registered, the registry is read, extended and written as a whole.  So long as
no number of it is a double, and no request is nested as deep as a text may be, everything that has
been written is read back the next time: the entries stay, and each run that is not there yet gets
one more at the end.

The registry is a list of requests, one level deeper than a request by itself.  A request that is
nested as deep as a text may be can be read and be registered, but then the registry is nested too
deep to be read again, and all its entries are gone.

* `Registering`: requests registered one after the other.
* `Registering.entries`: what the registry holds after them.
* `registryEntries_of_deep`: a request that is nested too deep.
-/

namespace Pipewright

open Json

variable {home : Path} {r : RunRequest} {h h' : Host} {es : List Value} {d : Disk}

/-- How deep the entries of a registry may be nested, which is a level less than a text may be. -/
def entryDepth : Nat := 126

/-- Requests are registered one after the other, each with its answer, whatever it is. -/
inductive Registering (home : Path) : Host → List (RunRequest × Except Error Bool) → Host → Prop where
  | nil (h : Host) : Registering home h [] h
  | cons {h h₁ h' : Host} {r : RunRequest} {answer : Except Error Bool}
      {calls : List (RunRequest × Except Error Bool)} (hrun : register home r h = (answer, h₁))
      (hrest : Registering home h₁ calls h') : Registering home h ((r, answer) :: calls) h'

/-- The run has an entry in the registry. -/
def Listed (home : Path) (d : Disk) (id : String) : Prop :=
  ∃ e ∈ registryEntries home d, isEntryOf id e = true

theorem any_isEntryOf_iff {id : String} :
    (registryEntries home d).any (isEntryOf id) = true ↔ Listed home d id :=
  List.any_eq_true

/-! ## Reading the registry -/

/-- The entries that are read are in form, and nested no deeper than they may be. -/
theorem formed_parseRegistry {text : String} {e : Value} (he : e ∈ parseRegistry text) :
    e.Formed ∧ e.Within entryDepth := by
  rw [parseRegistry] at he
  split at he
  · next entries hparse =>
    have hitem : Reader.Gives (Decoder.value.list.read Decoder.maxDepth) fun vs =>
        ∀ v ∈ vs, v.Formed ∧ v.Within entryDepth := by
      refine .bind fun next => ?_
      split
      · exact .failAtNext _ _
      · exact .bind fun _ => .settling (.bind_of (Reader.gives_readItems
          (Reader.gives_readValue entryDepth)) fun vs hvs => .bind fun _ => .pure hvs)
      · exact Decoder.gives_wrongKind _ _
    exact Reader.Gives.of_run (.bind_of hitem fun vs hvs => .bind fun _ => .pure hvs) hparse e he
  · cases he

/-- A registry that can be read has the entries of its text. -/
theorem registryEntries_of_readText {text : String} (h : d.readText (registryPath home) = .ok text) :
    registryEntries home d = parseRegistry text := by
  unfold registryEntries
  rw [h]

/-- A registry that cannot be read has no entries. -/
theorem registryEntries_eq_nil (h : ∀ text, d.readText (registryPath home) ≠ .ok text) :
    registryEntries home d = [] := by
  unfold registryEntries
  split
  · next text hread => exact absurd hread (h text)
  · rfl

theorem formed_registryEntries {e : Value} (he : e ∈ registryEntries home d) :
    e.Formed ∧ e.Within entryDepth := by
  by_cases hread : ∃ text, d.readText (registryPath home) = .ok text
  · obtain ⟨text, hread⟩ := hread
    rw [registryEntries_of_readText hread] at he
    exact formed_parseRegistry he
  · rw [registryEntries_eq_nil (not_exists.mp hread)] at he
    cases he

/-- What is written for entries without doubles is read for them. -/
theorem parseRegistry_pretty (hes : ∀ e ∈ es, e.Formed ∧ e.Within entryDepth)
    (hwhole : ∀ e ∈ es, e.Whole) : parseRegistry (Value.array es).pretty = es := by
  have haccepts : Decoder.value.list.Accepts (entryDepth + 1) (.array (es.map id)) es :=
    Decoder.accepts_list fun e he =>
      Decoder.accepts_value (hes e he).1 (hwhole e he) (hes e he).2
  rw [List.map_id] at haccepts
  rw [parseRegistry, Decoder.parse_pretty haccepts (Nat.le_refl _)]

/-- A list with an entry that is nested too deep is not read. -/
theorem parseRegistry_pretty_of_deep (hes : ∀ e ∈ es, e.Formed) {e : Value} (he : e ∈ es)
    (hdeep : ¬ e.Within entryDepth) : parseRegistry (Value.array es).pretty = [] := by
  rcases hread : parseRegistry (Value.array es).pretty with _ | ⟨w, ws⟩
  · rfl
  have hall : ∀ v ∈ w :: ws, v.Within entryDepth := fun v hv =>
    (formed_parseRegistry (hread ▸ hv)).2
  rw [parseRegistry] at hread
  split at hread
  · next entries hparse =>
    subst hread
    obtain ⟨v, hv, halike⟩ :=
      exists_mem_of_forall₂ (Decoder.alike_of_parse_pretty hes hparse).flip he
    exact absurd (halike.within _ (hall v hv)) hdeep
  · cases hread

/-! ## Registering one request -/

/-- What is done when a run is not in the registry yet. -/
def enroll (home : Path) (r : RunRequest) (es : List Value) : Act Host Bool := do
  makeRegistryDirectory home
  Host.change fun d =>
    d.writeText (registryPath home) (Value.array (es ++ [r.toSortedValue])).pretty
  return true

/-- A run that is in the registry is not put in again, and nothing happens. -/
theorem register_of_listed (hlisted : Listed home h.disk r.id) :
    register home r h = (.ok false, h) := by
  rw [register, Act.bind_of_ok (Act.get_eq_ok_iff.mpr ⟨rfl, rfl⟩),
    if_pos (any_isEntryOf_iff.mpr hlisted)]
  rfl

theorem register_of_not_listed (hlisted : ¬ Listed home h.disk r.id) :
    register home r h = enroll home r (registryEntries home h.disk) h := by
  rw [register, Act.bind_of_ok (Act.get_eq_ok_iff.mpr ⟨rfl, rfl⟩),
    if_neg fun hany => hlisted (any_isEntryOf_iff.mp hany)]
  rfl

/-- A run that is put in is written behind the entries that were there. -/
theorem enroll_eq_ok {answer : Bool} (hrun : enroll home r es h = (.ok answer, h')) :
    answer = true ∧ ∃ d : Disk, d.writeText (registryPath home)
      (Value.array (es ++ [r.toSortedValue])).pretty = .ok h'.disk := by
  obtain ⟨_, h₁, -, hrest⟩ := Act.bind_eq_ok_iff.mp hrun
  obtain ⟨_, h₂, hwrite, hdone⟩ := Act.bind_eq_ok_iff.mp hrest
  obtain ⟨d, hd, rfl⟩ := Host.change_eq_ok_iff.mp hwrite
  obtain ⟨rfl, rfl⟩ := Act.pure_eq_ok_iff.mp hdone
  exact ⟨rfl, h₁.disk, hd⟩

/-- The answer tells whether the run has been put in, and then that has been written. -/
theorem register_eq_ok {answer : Bool} (hrun : register home r h = (.ok answer, h')) :
    (answer = false ∧ Listed home h.disk r.id ∧ h' = h) ∨
      (answer = true ∧ ¬ Listed home h.disk r.id ∧ registryEntries home h'.disk =
        parseRegistry (Value.array (registryEntries home h.disk ++ [r.toSortedValue])).pretty) := by
  by_cases hlisted : Listed home h.disk r.id
  · rw [register_of_listed hlisted] at hrun
    cases hrun
    exact .inl ⟨rfl, hlisted, rfl⟩
  · rw [register_of_not_listed hlisted] at hrun
    obtain ⟨rfl, d, hwrite⟩ := enroll_eq_ok hrun
    refine .inr ⟨rfl, hlisted, ?_⟩
    exact registryEntries_of_readText (Disk.readText_writeText hwrite)

/-- The entries, and what is written for a request, are in form. -/
theorem formed_of_mem_extended (hr : r.Formed) {e : Value}
    (he : e ∈ registryEntries home d ++ [r.toSortedValue]) : e.Formed := by
  obtain he | he := List.mem_append.mp he
  · exact (formed_registryEntries he).1
  · exact List.mem_singleton.mp he ▸ hr.formed

/-- A request that is put in comes behind the entries, which stay. -/
theorem registryEntries_of_enrolled (hr : r.Formed) (hwhole : r.toSortedValue.Whole)
    (hwithin : r.toSortedValue.Within entryDepth)
    (hentries : ∀ e ∈ registryEntries home h.disk, e.Whole)
    (hrun : register home r h = (.ok true, h')) :
    registryEntries home h'.disk = registryEntries home h.disk ++ [r.toSortedValue] := by
  obtain ⟨hfalse, -⟩ | ⟨-, -, hread⟩ := register_eq_ok hrun
  · cases hfalse
  have hall : ∀ e ∈ registryEntries home h.disk ++ [r.toSortedValue],
      e.Within entryDepth ∧ e.Whole := by
    intro e he
    obtain he | he := List.mem_append.mp he
    · exact ⟨(formed_registryEntries he).2, hentries e he⟩
    · exact List.mem_singleton.mp he ▸ ⟨hwithin, hwhole⟩
  rw [hread, parseRegistry_pretty (fun e he => ⟨formed_of_mem_extended hr he, (hall e he).1⟩)
    fun e he => (hall e he).2]

/-- A request is put in when its run is not listed yet, and then comes behind the entries, which
stay.  Either way its run is listed afterwards. -/
theorem register_keeps {answer : Bool} (hr : r.Received) (hwhole : r.toSortedValue.Whole)
    (hwithin : r.toSortedValue.Within entryDepth)
    (hentries : ∀ e ∈ registryEntries home h.disk, e.Whole)
    (hrun : register home r h = (.ok answer, h')) :
    (answer = true ↔ ¬ Listed home h.disk r.id) ∧
      registryEntries home h'.disk =
        registryEntries home h.disk ++ (if answer then [r.toSortedValue] else []) ∧
      ∀ id, Listed home h'.disk id ↔ Listed home h.disk id ∨ r.id = id := by
  obtain ⟨rfl, hlisted, rfl⟩ | ⟨rfl, hlisted, -⟩ := register_eq_ok hrun
  · refine ⟨by simpa using hlisted, (List.append_nil _).symm, fun id => ⟨.inl, ?_⟩⟩
    rintro (hid | rfl)
    · exact hid
    · exact hlisted
  have hput := registryEntries_of_enrolled hr.toFormed hwhole hwithin hentries hrun
  refine ⟨by simpa using hlisted, hput, fun id => ?_⟩
  rw [Listed, hput]
  simp only [List.mem_append, List.mem_singleton, or_and_right, exists_or, exists_eq_left,
    hr.isEntryOf_iff]
  rfl

/-- A request that is put in and is nested as deep as a text may be takes all entries with it. -/
theorem registryEntries_of_deep (hr : r.Formed) (hdeep : ¬ r.toSortedValue.Within entryDepth)
    (hrun : register home r h = (.ok true, h')) : registryEntries home h'.disk = [] := by
  obtain ⟨hfalse, -⟩ | ⟨-, -, hread⟩ := register_eq_ok hrun
  · cases hfalse
  rw [hread]
  exact parseRegistry_pretty_of_deep (fun e he => formed_of_mem_extended hr he)
    (List.mem_append_right _ (List.mem_singleton.mpr rfl)) hdeep

/-! ## Registering requests one after the other -/

/-- The request has been put in. -/
def Enrolled (c : RunRequest × Except Error Bool) : Bool := c.2.toOption = some true

/-- When all calls are answered, the registry holds its entries unchanged and in order, and then what
has been written for the requests that have been put in.  These are the ones whose run neither had
an entry at the start nor was asked for before. -/
theorem Registering.entries {calls : List (RunRequest × Except Error Bool)}
    (hrun : Registering home h calls h') (hanswered : ∀ c ∈ calls, ∃ b, c.2 = .ok b)
    (hloaded : ∀ c ∈ calls, ∃ p d, RunRequest.load p d = .ok c.1)
    (hentries : ∀ e ∈ registryEntries home h.disk, e.Whole)
    (hwhole : ∀ c ∈ calls, c.1.toSortedValue.Whole)
    (hwithin : ∀ c ∈ calls, c.1.toSortedValue.Within entryDepth) :
    registryEntries home h'.disk = registryEntries home h.disk ++
        (calls.filter Enrolled).map (fun c => c.1.toSortedValue) ∧
      ∀ before c after, calls = before ++ c :: after →
        (c.2 = .ok true ↔ ¬ Listed home h.disk c.1.id ∧ ∀ b ∈ before, b.1.id ≠ c.1.id) := by
  induction hrun with
  | nil h =>
    refine ⟨(List.append_nil _).symm, fun before c after hsplit => ?_⟩
    exact absurd hsplit.symm (by simp)
  | @cons h h₁ h' r answer calls hfirst hrest ih =>
    obtain ⟨⟨b, rfl⟩, hanswered'⟩ := List.forall_mem_cons.mp hanswered
    obtain ⟨⟨p, d, hload⟩, hloaded⟩ := List.forall_mem_cons.mp hloaded
    obtain ⟨hrwhole, hwhole⟩ := List.forall_mem_cons.mp hwhole
    obtain ⟨hrwithin, hwithin⟩ := List.forall_mem_cons.mp hwithin
    obtain ⟨hanswer, hput, hlisted⟩ :=
      register_keeps (RunRequest.received_of_load hload) hrwhole hrwithin hentries hfirst
    have hentries₁ : ∀ e ∈ registryEntries home h₁.disk, e.Whole := by
      intro e he
      rw [hput] at he
      obtain he | he := List.mem_append.mp he
      · exact hentries e he
      · cases b with
        | false => cases he
        | true => exact List.mem_singleton.mp he ▸ hrwhole
    obtain ⟨hafter, hothers⟩ := ih hanswered' hloaded hentries₁ hwhole hwithin
    refine ⟨?_, fun before c after hsplit => ?_⟩
    · rw [hafter, hput, List.append_assoc]
      cases b <;> rfl
    · cases before with
      | nil =>
        obtain ⟨rfl, -⟩ := List.cons.inj hsplit
        rw [Except.ok.injEq, hanswer]
        simp
      | cons c₀ before =>
        obtain ⟨rfl, hcalls⟩ := List.cons.inj hsplit
        rw [hothers before c after hcalls, hlisted, not_or, List.forall_mem_cons, and_assoc]

/-! ### A request that is registered twice -/

/-- The text of a small request. -/
def shortText : String :=
  "\x7b\"run_id\":\"a\",\"working_dir\":\"\",\"pipeline_path\":\"\",\"x\":[7]\x7d"

/-- The request of the text. -/
def shortRequest : RunRequest where
  id := "a"
  workingDirectory := ""
  pipelinePath := ""
  extra := [("x", .array [.number (.natural 7)])]

/-- A disk with the request and a registry of something else. -/
def shortHost : Host where
  disk := {
    children := [
      ("a", .file shortText.toUTF8 false),
      (".ppdb", .directory [("db.json", .file "[5]".toUTF8 false)])]
    workingDirectory := [] }

theorem load_shortText : RunRequest.load "a" shortHost.disk = .ok shortRequest := by
  have hread : shortHost.disk.readText "a" = .ok shortText :=
    Disk.readText_eq_ok_iff.mpr ⟨["a"], false, rfl, rfl, rfl⟩
  have hparse : RunRequest.decoder.parse shortText = .ok shortRequest := by cbv
  exact RunRequest.load_of_parse hread hparse

theorem register_shortRequest :
    (register "" shortRequest shortHost).1 = .ok true :=
  eq_ok_of_toOption (by decide +kernel)

theorem registryEntries_shortHost :
    registryEntries "" shortHost.disk = [.number (.natural 5)] := by
  have hread : shortHost.disk.readText (registryPath "") = .ok "[5]" :=
    Disk.readText_eq_ok_iff.mpr ⟨[".ppdb", "db.json"], false, rfl, rfl, rfl⟩
  have hparse : parseRegistry "[5]" = [.number (.natural 5)] := by cbv
  rw [registryEntries_of_readText hread, hparse]

theorem shortHost_whole : ∀ e ∈ registryEntries "" shortHost.disk, e.Whole := by
  rw [registryEntries_shortHost, List.forall_mem_singleton]
  exact .natural 5

theorem shortRequest_whole : shortRequest.toSortedValue.Whole ∧
    shortRequest.toSortedValue.Within entryDepth := by
  have hmembers : ∀ m ∈ sortKeys shortRequest.members, m.2.Whole ∧ m.2.Within 125 := by
    intro m hm
    have hcases : m ∈ [("run_id", .string "a"), ("working_dir", .string ""),
      ("pipeline_path", .string ""), ("x", .array [.number (.natural 7)])] := mem_of_mem_sortKeys hm
    simp only [List.mem_cons, List.not_mem_nil, or_false] at hcases
    rcases hcases with rfl | rfl | rfl | rfl
    · exact ⟨.string _, .string _ _⟩
    · exact ⟨.string _, .string _ _⟩
    · exact ⟨.string _, .string _ _⟩
    · exact ⟨.array (by simp [Value.Whole.natural]), .array (by simp [Value.Within.number])⟩
  exact ⟨.object fun m hm => (hmembers m hm).1, .object fun m hm => (hmembers m hm).2⟩

/-- The request is put in the first time and not the second time. -/
theorem registering_shortHost : ∃ h', Registering "" shortHost
    [(shortRequest, .ok true), (shortRequest, .ok false)] h' := by
  obtain ⟨h₁, hfirst⟩ := exists_eq_of_fst register_shortRequest
  obtain ⟨-, -, hlisted⟩ := register_keeps (RunRequest.received_of_load load_shortText)
    shortRequest_whole.1 shortRequest_whole.2 shortHost_whole hfirst
  exact ⟨h₁, .cons hfirst (.cons (register_of_listed ((hlisted _).mpr (.inr rfl))) (.nil h₁))⟩

/-- Once it is put in, the request comes behind what the registry held. -/
theorem Registering.entries_shortHost : ∃ h', Registering "" shortHost
      [(shortRequest, .ok true), (shortRequest, .ok false)] h' ∧
    registryEntries "" h'.disk = [.number (.natural 5), shortRequest.toSortedValue] := by
  obtain ⟨h', hcalls⟩ := registering_shortHost
  have hafter := (Registering.entries hcalls
    (by rw [List.forall_mem_cons, List.forall_mem_singleton]; exact ⟨⟨_, rfl⟩, _, rfl⟩)
    (by rw [List.forall_mem_cons, List.forall_mem_singleton]
        exact ⟨⟨_, _, load_shortText⟩, _, _, load_shortText⟩)
    shortHost_whole
    (by rw [List.forall_mem_cons, List.forall_mem_singleton]
        exact ⟨shortRequest_whole.1, shortRequest_whole.1⟩)
    (by rw [List.forall_mem_cons, List.forall_mem_singleton]
        exact ⟨shortRequest_whole.2, shortRequest_whole.2⟩)).1
  rw [registryEntries_shortHost] at hafter
  exact ⟨h', hcalls, hafter⟩

end Pipewright
