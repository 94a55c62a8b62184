import Pipewright.Kernel.Provision
import Pipewright.Proofs.Json.Makings
import Pipewright.Proofs.Results

/-!
# Directories that are reported

The tool for environments reports as JSON where it keeps them.  A report is an object of which one
member counts, and what else it says is passed over, whatever it is.

* `Json.Written.ReportsDirectories`: the reports, as trees.
* `ReportsDirectories`: the reports, as texts.
* `environmentDirectories_parse_eq_ok_iff`: they are what is read for directories.
* `firstDirectory_of_reports`, `firstDirectory_of_none`: the first directory of a report, if it has
  one.
-/

namespace Pipewright

open Json

/-- The tree reports the directories.  An object does so by the member `envs_dirs`, which is an array
of strings and the only one with its key; when there is no such member, no directories are reported.
Instead of an object there may be an array of what the member would be. -/
inductive Json.Written.ReportsDirectories : Written → List Path → Prop where
  | member {before after : List (List Char × Written)} {cs : List Char} {ts : List Written}
      {directories : List Path} (hkey : Reader.heard cs = some "envs_dirs")
      (hitems : List.Forall₂ (fun t directory => t.text? = some directory) ts directories)
      (hothers : ∀ m ∈ before ++ after, ∃ key, Reader.heard m.1 = some key ∧ key ≠ "envs_dirs") :
      ReportsDirectories (.object (before ++ (cs, .array ts) :: after)) directories
  | noMember {ms : List (List Char × Written)}
      (hothers : ∀ m ∈ ms, ∃ key, Reader.heard m.1 = some key ∧ key ≠ "envs_dirs") :
      ReportsDirectories (.object ms) []
  | item {ts : List Written} {directories : List Path}
      (hitems : List.Forall₂ (fun t directory => t.text? = some directory) ts directories) :
      ReportsDirectories (.array [.array ts]) directories
  | noItem : ReportsDirectories (.array []) []

/-- The text is JSON that reports the directories. -/
def ReportsDirectories (text : String) (directories : List Path) : Prop :=
  ∃ t : Written, t.IsOf text ∧ t.ReportsDirectories directories

namespace DirectoryReport

/-- The only field of a report. -/
def field : Json.Field (List Path) where
  name := "envs_dirs"
  decoder := Decoder.path.list.sets fun x _ => x

/-- A report as a record. -/
def record : Record (List Path) where
  name := "CondaInfo"
  blank := []
  fields := [field]

variable {t : Written} {ts : List Written} {ms : List (List Char × Written)} {cs : List Char}
  {directories : List Path} {set : List Path → List Path}

/-! ## The field -/

theorem steady_path : Decoder.path.Steady 0 :=
  Decoder.steady_textCalled "path string"

theorem steady_directories : Decoder.path.list.Steady 1 :=
  steady_path.list (by decide)

theorem steady_record : record.Steady 1 where
  other := rfl
  fields := List.forall_mem_singleton.mpr (steady_directories.map _)
  depth := by decide

theorem independent_record : record.Independent where
  names := by decide
  commutes := List.pairwise_singleton _ _

theorem seen_path (ht : t.Sound) : Decoder.path.seen t = t.text? :=
  Decoder.seen_eq (Decoder.yields_textCalled "path string" t) (Nat.zero_le _) ht

/-- An array is seen for the texts of its items. -/
theorem seen_directories (hts : (Written.array ts).Sound) :
    Decoder.path.list.seen (.array ts) = some directories ↔
      List.Forall₂ (fun t directory => t.text? = some directory) ts directories := by
  have hsound : ∀ t ∈ ts, t.Sound := Written.sound_array_iff.mp hts
  rw [steady_path.seen_list (by decide) hts, mapM_eq_some_iff]
  constructor
  · intro h
    refine ((List.forall₂_and_left ts directories).mpr ⟨hsound, h⟩).imp fun t directory ht => ?_
    rw [← seen_path ht.1, ht.2]
  · intro h
    refine ((List.forall₂_and_left ts directories).mpr ⟨hsound, h⟩).imp fun t directory ht => ?_
    rw [seen_path ht.1, ht.2]

/-- The field is set to what its value lists, and its value is an array. -/
theorem seen_field (ht : t.Sound) (hset : field.decoder.seen t = some set) :
    ∃ ts directories, t = .array ts ∧
      List.Forall₂ (fun t directory => t.text? = some directory) ts directories ∧
      set = fun _ => directories := by
  obtain ⟨directories, hseen, rfl⟩ := Option.map_eq_some_iff.mp
    ((Decoder.seen_map Decoder.path.list (fun x (_ : List Path) => x) t).symm.trans hset)
  by_cases harray : ∃ ts, t = .array ts
  · obtain ⟨ts, rfl⟩ := harray
    exact ⟨ts, directories, rfl, (seen_directories ht).mp hseen, rfl⟩
  · have hnone := Decoder.yields_list_none Decoder.path 0 fun ts hts => harray ⟨ts, hts⟩
    rw [Decoder.seen_eq hnone (Nat.zero_le _) ht] at hseen
    cases hseen

theorem seen_field_of_items (hts : (Written.array ts).Sound)
    (hitems : List.Forall₂ (fun t directory => t.text? = some directory) ts directories) :
    field.decoder.seen (.array ts) = some fun _ => directories := by
  refine (Decoder.seen_map _ (fun x (_ : List Path) => x) _).trans ?_
  rw [(seen_directories hts).mpr hitems, Option.map_some]

/-! ## The member -/

theorem hears_field : record.hears cs = some (some field) ↔ Reader.heard cs = some "envs_dirs" := by
  rw [Record.hears_eq_some independent_record.names (List.mem_singleton_self _)]
  simp [field]

theorem hears_other :
    record.hears cs = some none ↔ ∃ key, Reader.heard cs = some key ∧ key ≠ "envs_dirs" := by
  rw [Record.hears, Option.map_eq_some_iff]
  refine exists_congr fun key => and_congr_right fun _ => ?_
  rw [Record.field?, List.find?_eq_none]
  simp [record, field]

/-- A member has the key of the field or another one. -/
theorem hears_of_sets {m : List Char × Written} {sets : List (String × (List Path → List Path))}
    (h : record.Sets m sets) :
    record.hears m.1 = some (some field) ∨ record.hears m.1 = some none := by
  cases h with
  | field hkey =>
    obtain rfl := List.mem_singleton.mp (Record.mem_fields_of_hears hkey)
    exact .inl hkey
  | other hkey => exact .inr hkey

/-- Each member of a record has a key that can be told. -/
theorem hears_of_madeFrom (h : record.MadeFrom ms directories) {m : List Char × Written}
    (hm : m ∈ ms) : record.hears m.1 = some (some field) ∨ record.hears m.1 = some none := by
  obtain ⟨sets, hsets, -⟩ := h
  obtain ⟨s, -, hs⟩ := exists_mem_of_forall₂ hsets.flip hm
  exact hears_of_sets hs

/-- Members with other keys make no difference. -/
theorem madeFrom_append_others {others : List (List Char × Written)}
    (hothers : ∀ m ∈ others, record.hears m.1 = some none) :
    record.MadeFrom (others ++ ms) directories ↔ record.MadeFrom ms directories := by
  induction others with
  | nil => exact Iff.rfl
  | cons m others ih =>
    obtain ⟨hm, hothers⟩ := List.forall_mem_cons.mp hothers
    rw [List.cons_append, Record.madeFrom_other hm, ih hothers]

/-- Behind the member that sets the field no other one does. -/
theorem hears_behind (hkey : record.hears cs = some (some field))
    (h : record.MadeFrom ((cs, t) :: ms) directories) :
    ∀ m ∈ ms, record.hears m.1 = some none := by
  obtain ⟨set, sets, -, hsets, hmakes⟩ := (Record.madeFrom_cons hkey).mp h
  intro m hm
  obtain ⟨s, hs, hfirst⟩ := exists_mem_of_forall₂ hsets.flip hm
  cases hfirst with
  | other hother => exact hother
  | @field _ f _ put hsame hput =>
    obtain rfl := List.mem_singleton.mp (Record.mem_fields_of_hears hsame)
    refine absurd ?_ (List.nodup_cons.mp hmakes.once).1
    exact List.mem_map.mpr ⟨(field.name, put), List.mem_flatten_of_mem hs
      (List.mem_singleton_self _), rfl⟩

theorem madeFrom_nil : record.MadeFrom [] directories ↔ directories = [] := by
  constructor
  · rintro ⟨_, hsets, hmakes⟩
    cases hsets
    exact hmakes.made.symm
  · rintro rfl
    exact ⟨[], .nil, List.nodup_nil, List.forall_mem_singleton.mpr nofun, rfl⟩

theorem madeFrom_singleton (hkey : record.hears cs = some (some field)) :
    record.MadeFrom [(cs, t)] directories ↔
      ∃ set, field.decoder.seen t = some set ∧ set [] = directories := by
  rw [Record.madeFrom_cons hkey]
  constructor
  · rintro ⟨set, _, hset, hsets, hmakes⟩
    cases hsets
    exact ⟨set, hset, hmakes.made⟩
  · rintro ⟨set, hset, hmade⟩
    exact ⟨set, [], hset, .nil, List.nodup_singleton _, List.forall_mem_singleton.mpr nofun, hmade⟩

/-! ## Reports -/

theorem seen_object (hms : (Written.object ms).Sound) :
    environmentDirectories.seen (.object ms) = some directories ↔
      (Written.object ms).ReportsDirectories directories := by
  have hmade : environmentDirectories.seen (.object ms) = some directories ↔
      record.MadeFrom ms directories := Decoder.seen_object_eq_some steady_record hms
  rw [hmade]
  constructor
  · intro h
    by_cases hmember : ∃ m ∈ ms, record.hears m.1 = some (some field)
    · obtain ⟨⟨cs, t⟩, hm, hkey⟩ := hmember
      obtain ⟨before, after, rfl⟩ := List.append_of_mem hm
      have hfirst := (Record.madeFrom_middle independent_record).mp h
      have hothers := hears_behind hkey hfirst
      have hlast := hfirst.perm independent_record
        (List.perm_append_singleton (cs, t) (before ++ after)).symm
      obtain ⟨set, hset, rfl⟩ :=
        (madeFrom_singleton hkey).mp ((madeFrom_append_others hothers).mp hlast)
      obtain ⟨ts, directories, rfl, hitems, rfl⟩ :=
        seen_field (Written.sound_object_iff.mp hms _ hm).2 hset
      exact .member (hears_field.mp hkey) hitems fun m hm => hears_other.mp (hothers m hm)
    · have hothers : ∀ m ∈ ms, record.hears m.1 = some none := fun m hm =>
        (hears_of_madeFrom h hm).resolve_left fun hkey => hmember ⟨m, hm, hkey⟩
      rw [← List.append_nil ms, madeFrom_append_others hothers, madeFrom_nil] at h
      subst h
      exact .noMember fun m hm => hears_other.mp (hothers m hm)
  · intro h
    cases h with
    | @member before after cs ts _ hkey hitems hothers =>
      refine (Record.madeFrom_middle independent_record).mpr ?_
      refine Record.MadeFrom.perm independent_record ?_
        (List.perm_append_singleton (cs, .array ts) (before ++ after))
      refine (madeFrom_append_others fun m hm => hears_other.mpr (hothers m hm)).mpr ?_
      have hts := (Written.sound_object_iff.mp hms (cs, .array ts) (by simp)).2
      exact (madeFrom_singleton (hears_field.mpr hkey)).mpr
        ⟨_, seen_field_of_items hts hitems, rfl⟩
    | noMember hothers =>
      rw [← List.append_nil ms, madeFrom_append_others fun m hm => hears_other.mpr (hothers m hm)]
      exact madeFrom_nil.mpr rfl

theorem seen_array (hts : (Written.array ts).Sound) :
    environmentDirectories.seen (.array ts) = some directories ↔
      (Written.array ts).ReportsDirectories directories := by
  have horder : environmentDirectories.seen (.array ts) = some directories ↔
      Record.inOrder [field] ts [] = some directories :=
    Eq.congr_left (Decoder.seen_fields steady_record hts)
  rw [horder]
  rcases ts with _ | ⟨t, _ | ⟨u, ts⟩⟩
  · constructor
    · rintro ⟨⟩
      exact .noItem
    · rintro ⟨⟩
      rfl
  · rw [Record.inOrder_cons]
    constructor
    · rintro ⟨set, hset, ⟨⟩⟩
      obtain ⟨ts, directories, rfl, hitems, rfl⟩ :=
        seen_field (Written.sound_array_iff.mp hts t (List.mem_singleton_self t)) hset
      exact .item hitems
    · rintro (_ | _ | hitems)
      exact ⟨_, seen_field_of_items (Written.sound_array_iff.mp hts _ (List.mem_singleton_self _))
        hitems, rfl⟩
  · rw [Record.inOrder_cons]
    constructor
    · rintro ⟨set, -, ⟨⟩⟩
    · rintro ⟨⟩

/-- What is neither an object nor an array is no report. -/
theorem seen_none (ht : t.Sound) (hobject : ∀ ms, t ≠ .object ms) (harray : ∀ ts, t ≠ .array ts) :
    environmentDirectories.seen t = none :=
  Decoder.seen_eq (Decoder.yields_record_none record 0 hobject harray) (Nat.zero_le _) ht

/-- What is seen in a tree is what it reports. -/
theorem seen_iff (ht : t.Sound) : environmentDirectories.seen t = some directories ↔
    t.ReportsDirectories directories := by
  cases t with
  | object ms => exact seen_object ht
  | array ts => exact seen_array ht
  | _ =>
    rw [seen_none ht (fun _ h => by cases h) fun _ h => by cases h]
    constructor
    · rintro ⟨⟩
    · rintro ⟨⟩

end DirectoryReport

/-- A text is read for the directories that it reports. -/
theorem environmentDirectories_parse_eq_ok_iff {text : String} {directories : List Path} :
    environmentDirectories.parse text = .ok directories ↔ ReportsDirectories text directories := by
  have hsteady : environmentDirectories.Steady 2 :=
    Decoder.steady_record DirectoryReport.steady_record
  constructor
  · intro h
    obtain ⟨t, ht⟩ := hsteady.finds.exists_isOf h
    exact ⟨t, ht, (DirectoryReport.seen_iff ht.sound).mp ((hsteady.parse_eq_ok_iff ht).mp h)⟩
  · rintro ⟨t, ht, h⟩
    exact (hsteady.parse_eq_ok_iff ht).mpr ((DirectoryReport.seen_iff ht.sound).mpr h)

/-! ## The first directory -/

namespace ToolNames

variable {text : String}

theorem firstDirectory_of_reports {directory : Path} {others : List Path}
    (h : ReportsDirectories text (directory :: others)) : firstDirectory text = .ok directory := by
  rw [firstDirectory, environmentDirectories_parse_eq_ok_iff.mpr h]

theorem firstDirectory_of_none (h : ReportsDirectories text []) : firstDirectory text =
    .error (.provisioning "conda info --json" "no envs_dirs reported") := by
  rw [firstDirectory, environmentDirectories_parse_eq_ok_iff.mpr h]

end ToolNames

end Pipewright
