import Mathlib.Data.List.Nodup
import Mathlib.Data.List.Pairwise
import Mathlib.Data.List.Perm.Basic
import Pipewright.Proofs.Json.RecordTrees

/-!
# What members make of a record

The members of an object set fields of a record, each field at most once, and the record is what
comes of the blank one by it.  When the fields do not touch each other's parts, it does not matter
in which order the members stand, and a member may go whose field is as in the blank record.

* `Record.hears`, `Record.Sets`: what a member sets.
* `Record.MadeFrom`, `Decoder.seen_object_eq_some`: the record that members make.
* `Record.Independent`, `Record.MadeFrom.perm`: the order of the members.
* `Record.MadeFrom.replace`, `Record.MadeFrom.drop`, `Record.MadeFrom.add`: single members.
* `Decoder.get_of_seen`: a part of the record, from the value of its key.
-/

namespace Pipewright.Json

open Reader

/-- Two fields may be set in any order. -/
def Field.Commutes {α : Type} (f g : Field α) : Prop :=
  ∀ t u set put, f.decoder.seen t = some set → g.decoder.seen u = some put →
    ∀ a, set (put a) = put (set a)

/-- Fields that set parts of a record commute when the parts are not the same. -/
theorem Field.commutes_sets {α β γ : Type} {f g : Field α} {d : Decoder β} {e : Decoder γ}
    {set : β → α → α} {put : γ → α → α} (hf : f.decoder = d.sets set) (hg : g.decoder = e.sets put)
    (h : ∀ x y a, set x (put y a) = put y (set x a)) : f.Commutes g := by
  intro t u s s' hs hs'
  rw [hf, Decoder.sets, Decoder.seen_map] at hs
  rw [hg, Decoder.sets, Decoder.seen_map] at hs'
  obtain ⟨x, -, rfl⟩ := Option.map_eq_some_iff.mp hs
  obtain ⟨y, -, rfl⟩ := Option.map_eq_some_iff.mp hs'
  exact h x y

namespace Record

variable {α : Type} (r : Record α) {need : Nat}

/-- The field that a key names as it is written, if it names one.  Nothing is heard when the key
cannot be read. -/
def hears (cs : List Char) : Option (Option (Field α)) :=
  (heard cs).map r.field?

/-- What a member sets: the field that its key names, or nothing. -/
inductive Sets : List Char × Written → List (String × (α → α)) → Prop where
  | field {cs : List Char} {f : Field α} {t : Written} {set : α → α}
      (hkey : r.hears cs = some (some f)) (hset : f.decoder.seen t = some set) :
      Sets (cs, t) [(f.name, set)]
  | other {cs : List Char} {t : Written} (hkey : r.hears cs = some none) : Sets (cs, t) []

/-- The parts of a record are set one after the other. -/
def setAll (sets : List (String × (α → α))) (a : α) : α :=
  sets.foldl (fun b s => s.2 b) a

/-- Setting fields, none of them twice and all that are required, makes the record of the blank
one. -/
structure Makes (sets : List (String × (α → α))) (a : α) : Prop where
  once : (sets.map Prod.fst).Nodup
  required : ∀ f ∈ r.fields, f.required = true → f.name ∈ sets.map Prod.fst
  made : setAll sets r.blank = a

/-- The members make the record. -/
def MadeFrom (ms : List (List Char × Written)) (a : α) : Prop :=
  ∃ sets, List.Forall₂ r.Sets ms sets ∧ r.Makes sets.flatten a

/-- The fields keep out of each other's way: no name is given twice, and two fields may be set in
any order. -/
structure Independent : Prop where
  names : r.names.Nodup
  commutes : r.fields.Pairwise Field.Commutes

variable {r} {m : List Char × Written} {ms : List (List Char × Written)} {p q : Progress α}
  {sets : List (String × (α → α))} {a : α}

/-! ## Members one after the other -/

/-- The record so far after more fields have been set. -/
def after (p : Progress α) (sets : List (String × (α → α))) : Progress α :=
  (setAll sets p.1, (sets.map Prod.fst).reverse ++ p.2)

theorem after_append (p : Progress α) (sets more : List (String × (α → α))) :
    after p (sets ++ more) = after (after p sets) more := by
  simp [after, setAll]

/-- A member is taken when what it sets has not been set. -/
theorem step_eq_some (hp : p.2.Nodup) :
    r.step p m = some q ↔ ∃ sets, r.Sets m sets ∧ q = after p sets ∧ q.2.Nodup := by
  obtain ⟨cs, t⟩ := m
  constructor
  · intro h
    obtain ⟨key, hkey, h⟩ := Option.bind_eq_some_iff.mp h
    rw [put] at h
    cases hfield : r.field? key with
    | none =>
      rw [hfield] at h
      cases h
      exact ⟨[], .other (by rw [hears, hkey, Option.map_some, hfield]), rfl, hp⟩
    | some f =>
      rw [hfield] at h
      dsimp only at h
      split at h
      · cases h
      · next hunseen =>
        obtain ⟨set, hset, rfl⟩ := Option.map_eq_some_iff.mp h
        have hhears : r.hears cs = some (some f) := by rw [hears, hkey, Option.map_some, hfield]
        refine ⟨[(f.name, set)], .field hhears hset, rfl, ?_⟩
        exact List.nodup_cons.mpr ⟨fun hmem => hunseen (List.contains_iff_mem.mpr hmem), hp⟩
  · rintro ⟨sets, hsets, rfl, hnodup⟩
    cases hsets with
    | @field _ f _ set hkey hset =>
      have hunseen : p.2.contains f.name = false :=
        Bool.eq_false_iff.mpr fun h => (List.nodup_cons.mp hnodup).1 (List.contains_iff_mem.mp h)
      obtain ⟨key, hheard, hfield⟩ := Option.map_eq_some_iff.mp hkey
      refine Option.bind_eq_some_iff.mpr ⟨key, hheard, ?_⟩
      simp only [put, hfield, hunseen, hset, Bool.false_eq_true, if_false, Option.map_some]
      rfl
    | other hkey =>
      obtain ⟨key, hheard, hfield⟩ := Option.map_eq_some_iff.mp hkey
      refine Option.bind_eq_some_iff.mpr ⟨key, hheard, ?_⟩
      rw [put, hfield]
      rfl

/-- Members are taken one after the other when no two of them set one field. -/
theorem foldlM_step_eq_some (hp : p.2.Nodup) : ms.foldlM r.step p = some q ↔
    ∃ sets, List.Forall₂ r.Sets ms sets ∧ q = after p sets.flatten ∧ q.2.Nodup := by
  induction ms generalizing p with
  | nil =>
    constructor
    · intro h
      cases h
      exact ⟨[], .nil, rfl, hp⟩
    · rintro ⟨sets, hsets, rfl, -⟩
      cases hsets
      rfl
  | cons m ms ih =>
    rw [List.foldlM_cons]
    constructor
    · intro h
      obtain ⟨p', hstep, h⟩ := Option.bind_eq_some_iff.mp h
      obtain ⟨first, hfirst, rfl, hp'⟩ := (step_eq_some hp).mp hstep
      obtain ⟨sets, hsets, rfl, hq⟩ := (ih hp').mp h
      refine ⟨first :: sets, .cons hfirst hsets, ?_, hq⟩
      rw [List.flatten_cons, after_append]
    · rintro ⟨sets, hsets, rfl, hq⟩
      cases hsets with | @cons _ first _ sets hfirst hsets =>
      have hnext := after_append p first sets.flatten
      rw [List.flatten_cons] at hq ⊢
      have hp' : (after p first).2.Nodup := by
        rw [hnext] at hq
        exact (List.nodup_append.mp hq).2.1
      exact Option.bind_eq_some_iff.mpr ⟨_, (step_eq_some hp).mpr ⟨first, hfirst, rfl, hp'⟩,
        (ih hp').mpr ⟨sets, hsets, hnext, hq⟩⟩

theorem finish_eq_some : r.finish p = some a ↔
    (∀ f ∈ r.fields, f.required = true → f.name ∈ p.2) ∧ p.1 = a := by
  have hmissing : r.missing? p.2 = none ↔ ∀ f ∈ r.fields, f.required = true → f.name ∈ p.2 := by
    rw [missing?, Option.map_eq_none_iff, List.find?_eq_none]
    simp
  rw [← hmissing, finish]
  cases r.missing? p.2 with
  | none => simp
  | some name => simp

/-- What members make is what comes of them one after the other. -/
theorem foldlM_bind_eq_some :
    (ms.foldlM r.step (r.blank, [])).bind r.finish = some a ↔ r.MadeFrom ms a := by
  rw [Option.bind_eq_some_iff]
  constructor
  · rintro ⟨q, hfold, hfinish⟩
    obtain ⟨sets, hsets, rfl, hnodup⟩ := (foldlM_step_eq_some List.nodup_nil).mp hfold
    obtain ⟨hrequired, hmade⟩ := finish_eq_some.mp hfinish
    simp only [after, List.append_nil, List.nodup_reverse, List.mem_reverse] at hnodup hrequired
    exact ⟨sets, hsets, hnodup, hrequired, hmade⟩
  · rintro ⟨sets, hsets, hmakes⟩
    refine ⟨after (r.blank, []) sets.flatten, ?_, ?_⟩
    · refine (foldlM_step_eq_some List.nodup_nil).mpr ⟨sets, hsets, rfl, ?_⟩
      simp only [after, List.append_nil, List.nodup_reverse]
      exact hmakes.once
    · refine finish_eq_some.mpr ⟨?_, hmakes.made⟩
      simp only [after, List.append_nil, List.mem_reverse]
      exact hmakes.required

/-! ## Names -/

/-- A key names one field at most. -/
theorem eq_of_mem_names (hnames : r.names.Nodup) {f g : Field α} (hf : f ∈ r.fields)
    (hg : g ∈ r.fields) {key : String} (hkey : key ∈ f.name :: f.aliases)
    (hkey' : key ∈ g.name :: g.aliases) : f = g := by
  by_contra hne
  have hsymm : Std.Symm (Function.onFun List.Disjoint fun f : Field α => f.name :: f.aliases) :=
    ⟨fun _ _ h _ hx hy => h hy hx⟩
  exact (List.nodup_flatMap.mp hnames).2.forall hf hg hne hkey hkey'

theorem eq_of_name (hnames : r.names.Nodup) {f g : Field α} (hf : f ∈ r.fields)
    (hg : g ∈ r.fields) (h : f.name = g.name) : f = g :=
  eq_of_mem_names hnames hf hg List.mem_cons_self (h ▸ List.mem_cons_self)

theorem nodup_fieldNames (hnames : r.names.Nodup) : (r.fields.map Field.name).Nodup := by
  refine List.pairwise_map.mpr ((List.nodup_flatMap.mp hnames).2.imp ?_)
  intro f g hdisjoint hsame
  exact hdisjoint List.mem_cons_self (List.mem_cons.mpr (.inl hsame))

/-- The names of a field name that field. -/
theorem hears_eq_some (hnames : r.names.Nodup) {f : Field α} (hf : f ∈ r.fields) {cs : List Char} :
    r.hears cs = some (some f) ↔ ∃ key, heard cs = some key ∧ key ∈ f.name :: f.aliases := by
  rw [hears, Option.map_eq_some_iff]
  refine exists_congr fun key => and_congr_right fun _ => ⟨fun hfield => ?_, fun hkey => ?_⟩
  · simpa [List.contains_iff_mem] using List.find?_some hfield
  · cases hfield : r.field? key with
    | none =>
      have hnone := List.find?_eq_none.mp hfield f hf
      simp only [Bool.or_eq_true, decide_eq_true_eq, List.contains_iff_mem] at hnone
      exact absurd (List.mem_cons.mp hkey) hnone
    | some g =>
      have hg : key ∈ g.name :: g.aliases := by
        simpa [List.contains_iff_mem] using List.find?_some hfield
      rw [eq_of_mem_names hnames hf (List.mem_of_find?_eq_some hfield) hkey hg]

theorem mem_fields_of_hears {cs : List Char} {f : Field α} (h : r.hears cs = some (some f)) :
    f ∈ r.fields := by
  obtain ⟨key, -, hfield⟩ := Option.map_eq_some_iff.mp h
  exact List.mem_of_find?_eq_some hfield

/-! ## The order of the members -/

/-- What members set are fields that their keys name. -/
theorem exists_of_mem_flatten {setss : List (List (String × (α → α)))}
    (h : List.Forall₂ r.Sets ms setss) {s : String × (α → α)} (hs : s ∈ setss.flatten) :
    ∃ m ∈ ms, ∃ f, r.hears m.1 = some (some f) ∧ s.1 = f.name ∧ f.decoder.seen m.2 = some s.2 := by
  induction h with
  | nil => cases hs
  | @cons m first ms setss hfirst _ ih =>
    rw [List.flatten_cons, List.mem_append] at hs
    rcases hs with hs | hs
    · cases hfirst with
      | @field cs f t set hkey hset =>
        obtain rfl := List.mem_singleton.mp hs
        exact ⟨_, List.mem_cons_self, f, hkey, rfl, hset⟩
      | other => cases hs
    · obtain ⟨m', hm', hrest⟩ := ih hs
      exact ⟨m', List.mem_cons_of_mem m hm', hrest⟩

/-- Independent fields may be set in any order. -/
theorem setAll_perm (hr : r.Independent) {more : List (String × (α → α))} (hperm : sets.Perm more)
    (honce : (sets.map Prod.fst).Nodup)
    (hfields : ∀ s ∈ sets, ∃ f ∈ r.fields, s.1 = f.name ∧ ∃ t, f.decoder.seen t = some s.2)
    (a : α) : setAll sets a = setAll more a := by
  refine hperm.foldl_eq' (fun s hs s' hs' b => ?_) a
  by_cases hname : s.1 = s'.1
  · rw [List.inj_on_of_nodup_map honce hs hs' hname]
  · obtain ⟨f, hf, hsf, t, hset⟩ := hfields s hs
    obtain ⟨g, hg, hsg, u, hput⟩ := hfields s' hs'
    have hsymm : Std.Symm (Field.Commutes : Field α → Field α → Prop) :=
      ⟨fun f g h t u set put hset hput b => (h u t put set hput hset b).symm⟩
    have hne : f ≠ g := by
      rintro rfl
      exact hname (hsf.trans hsg.symm)
    exact (hr.commutes.forall hf hg hne t u _ _ hset hput b).symm

/-- Members make the same record in any order. -/
theorem MadeFrom.perm (hr : r.Independent) (h : r.MadeFrom ms a)
    {ms' : List (List Char × Written)} (hperm : ms.Perm ms') : r.MadeFrom ms' a := by
  obtain ⟨sets, hsets, hmakes⟩ := h
  obtain ⟨sets', hsets', hflat⟩ := List.perm_comp_forall₂ hperm.symm hsets
  have hflatten := hflat.symm.flatten
  refine ⟨sets', hsets', (hflatten.map Prod.fst).nodup_iff.mp hmakes.once, fun f hf hrequired => ?_,
    ?_⟩
  · exact (hflatten.map Prod.fst).mem_iff.mp (hmakes.required f hf hrequired)
  · rw [← hmakes.made]
    refine (setAll_perm hr hflatten hmakes.once (fun s hs => ?_) r.blank).symm
    obtain ⟨m, -, f, hkey, hname, hset⟩ := exists_of_mem_flatten hsets hs
    exact ⟨f, mem_fields_of_hears hkey, hname, m.2, hset⟩

/-- Members make the same record when one of them comes first. -/
theorem madeFrom_middle (hr : r.Independent) {before after : List (List Char × Written)} :
    r.MadeFrom (before ++ m :: after) a ↔ r.MadeFrom (m :: (before ++ after)) a :=
  ⟨fun h => h.perm hr List.perm_middle, fun h => h.perm hr List.perm_middle.symm⟩

/-! ## Single members -/

/-- A member with another key makes no difference. -/
theorem madeFrom_other (hm : r.hears m.1 = some none) :
    r.MadeFrom (m :: ms) a ↔ r.MadeFrom ms a := by
  constructor
  · rintro ⟨_, hsets, hmakes⟩
    cases hsets with | cons hfirst hsets =>
    cases hfirst with
    | field hkey =>
      rw [hm] at hkey
      cases hkey
    | other => exact ⟨_, hsets, hmakes⟩
  · rintro ⟨sets, hsets, hmakes⟩
    exact ⟨[] :: sets, .cons (.other hm) hsets, hmakes⟩

variable {f : Field α} {cs : List Char} {t : Written} {set : α → α}

/-- A member whose key names a field sets that field, and those behind it set others. -/
theorem madeFrom_cons (hkey : r.hears cs = some (some f)) :
    r.MadeFrom ((cs, t) :: ms) a ↔ ∃ set sets, f.decoder.seen t = some set ∧
      List.Forall₂ r.Sets ms sets ∧ r.Makes ((f.name, set) :: sets.flatten) a := by
  constructor
  · rintro ⟨_, hsets, hmakes⟩
    cases hsets with | cons hfirst hsets =>
    cases hfirst with
    | other hother =>
      rw [hkey] at hother
      cases hother
    | field hsame hset =>
      cases hkey.symm.trans hsame
      exact ⟨_, _, hset, hsets, hmakes⟩
  · rintro ⟨set, sets, hset, hsets, hmakes⟩
    exact ⟨_, .cons (.field hkey hset) hsets, hmakes⟩

/-- A member may be replaced by one whose key names the same field and whose value is seen alike. -/
theorem MadeFrom.replace {cs' : List Char} {u : Written} (hkey : r.hears cs = some (some f))
    (hkey' : r.hears cs' = some (some f))
    (htu : ∀ set, f.decoder.seen t = some set → f.decoder.seen u = some set)
    (h : r.MadeFrom ((cs, t) :: ms) a) : r.MadeFrom ((cs', u) :: ms) a := by
  obtain ⟨set, sets, hset, hrest⟩ := (madeFrom_cons hkey).mp h
  exact (madeFrom_cons hkey').mpr ⟨set, sets, htu set hset, hrest⟩

/-- A member may go when its field is not required and is as in the blank record. -/
theorem MadeFrom.drop (hnames : r.names.Nodup) (hkey : r.hears cs = some (some f))
    (hset : f.decoder.seen t = some set) (hblank : set r.blank = r.blank)
    (hrequired : f.required = false) (h : r.MadeFrom ((cs, t) :: ms) a) : r.MadeFrom ms a := by
  obtain ⟨set', sets, hset', hsets, hmakes⟩ := (madeFrom_cons hkey).mp h
  cases hset.symm.trans hset'
  refine ⟨sets, hsets, (List.nodup_cons.mp hmakes.once).2, fun g hg hgrequired => ?_, ?_⟩
  · refine (List.mem_cons.mp (hmakes.required g hg hgrequired)).resolve_left fun hname => ?_
    obtain rfl := eq_of_name hnames hg (mem_fields_of_hears hkey) hname
    rw [hrequired] at hgrequired
    cases hgrequired
  · have hmade : setAll sets.flatten (set r.blank) = a := hmakes.made
    rw [hblank] at hmade
    exact hmade

/-- A member may come whose field has no member and is as in the blank record. -/
theorem MadeFrom.add (hnames : r.names.Nodup) (hkey : r.hears cs = some (some f))
    (hset : f.decoder.seen t = some set) (hblank : set r.blank = r.blank)
    (habsent : ∀ m ∈ ms, r.hears m.1 ≠ some (some f)) (h : r.MadeFrom ms a) :
    r.MadeFrom ((cs, t) :: ms) a := by
  obtain ⟨sets, hsets, hmakes⟩ := h
  refine (madeFrom_cons hkey).mpr ⟨set, sets, hset, hsets, ?_, fun g hg hgrequired =>
    List.mem_cons_of_mem _ (hmakes.required g hg hgrequired), ?_⟩
  · refine List.nodup_cons.mpr ⟨fun hmem => ?_, hmakes.once⟩
    obtain ⟨s, hs, hname⟩ := List.mem_map.mp hmem
    obtain ⟨m, hm, g, hkey', hname', -⟩ := exists_of_mem_flatten hsets hs
    have hsame : f = g := eq_of_name hnames (mem_fields_of_hears hkey) (mem_fields_of_hears hkey')
      (hname.symm.trans hname')
    exact habsent m hm (hsame ▸ hkey')
  · show setAll sets.flatten (set r.blank) = a
    rw [hblank]
    exact hmakes.made

/-! ## Parts of the record -/

/-- Fields of other names leave the part as it is. -/
def Keeps {β : Type} (fields : List (Field α)) (name : String) (get : α → β) : Prop :=
  ∀ g ∈ fields, g.name ≠ name → ∀ t set, g.decoder.seen t = some set → ∀ a, get (set a) = get a

variable {β : Type} {get : α → β}

theorem get_setAll (h : ∀ s ∈ sets, ∀ b, get (s.2 b) = get b) (a : α) :
    get (setAll sets a) = get a := by
  induction sets generalizing a with
  | nil => rfl
  | cons s sets ih =>
    obtain ⟨hs, hsets⟩ := List.forall_mem_cons.mp h
    exact (ih hsets (s.2 a)).trans (hs a)

/-- Members whose keys name other fields leave the part as it is. -/
theorem get_setAll_flatten {setss : List (List (String × (α → α)))}
    (hsets : List.Forall₂ r.Sets ms setss) {name : String} (hkeeps : Keeps r.fields name get)
    (hname : name ∉ setss.flatten.map Prod.fst) (a : α) :
    get (setAll setss.flatten a) = get a := by
  refine get_setAll (fun s hs b => ?_) a
  obtain ⟨m, -, g, hkey, hsame, hset⟩ := exists_of_mem_flatten hsets hs
  refine hkeeps g (mem_fields_of_hears hkey) ?_ m.2 s.2 hset b
  rintro rfl
  exact hname (List.mem_map.mpr ⟨s, hs, hsame⟩)

/-- A part is as its member has set it. -/
theorem MadeFrom.get_member (hkey : r.hears cs = some (some f)) (hkeeps : Keeps r.fields f.name get)
    (h : r.MadeFrom ((cs, t) :: ms) a) :
    ∃ set, f.decoder.seen t = some set ∧ get a = get (set r.blank) := by
  obtain ⟨set, sets, hset, hsets, hmakes⟩ := (madeFrom_cons hkey).mp h
  refine ⟨set, hset, ?_⟩
  rw [← hmakes.made]
  exact get_setAll_flatten hsets hkeeps (List.nodup_cons.mp hmakes.once).1 (set r.blank)

/-- A part whose field has no member is as in the blank record. -/
theorem MadeFrom.get_absent (hnames : r.names.Nodup) (hf : f ∈ r.fields)
    (hkeeps : Keeps r.fields f.name get) (habsent : ∀ m ∈ ms, r.hears m.1 ≠ some (some f))
    (h : r.MadeFrom ms a) : get a = get r.blank := by
  obtain ⟨sets, hsets, hmakes⟩ := h
  rw [← hmakes.made]
  refine get_setAll_flatten hsets hkeeps (fun hmem => ?_) r.blank
  obtain ⟨s, hs, hname⟩ := List.mem_map.mp hmem
  obtain ⟨m, hm, g, hkey, hname', -⟩ := exists_of_mem_flatten hsets hs
  obtain rfl := eq_of_name hnames hf (mem_fields_of_hears hkey) (hname.symm.trans hname')
  exact habsent m hm hkey

/-! ## Records in arrays -/

theorem inOrder_cons {g : Field α} {fs : List (Field α)} {u : Written} {ts : List Written} {b : α} :
    inOrder (g :: fs) (u :: ts) a = some b ↔
      ∃ set, g.decoder.seen u = some set ∧ inOrder fs ts (set a) = some b := by
  rw [inOrder, Option.bind_eq_some_iff]

theorem inOrder_cons_nil {g : Field α} {fs : List (Field α)} {b : α} :
    inOrder (g :: fs) [] a = some b ↔ g.required = false ∧ inOrder fs [] a = some b := by
  rw [inOrder]
  cases g.required with
  | true => simp
  | false => simp

/-- An item may be replaced by one that sets the same. -/
theorem inOrder_replace {fs : List (Field α)} {before after : List Written} {u v : Written} {b : α}
    {g : Field α} (hg : fs[before.length]? = some g)
    (huv : ∀ set, g.decoder.seen u = some set → g.decoder.seen v = some set)
    (h : inOrder fs (before ++ u :: after) a = some b) :
    inOrder fs (before ++ v :: after) a = some b := by
  induction before generalizing fs a with
  | nil =>
    cases fs with
    | nil => cases hg
    | cons g' fs =>
      cases hg
      obtain ⟨set, hset, hrest⟩ := inOrder_cons.mp h
      exact inOrder_cons.mpr ⟨set, huv set hset, hrest⟩
  | cons w before ih =>
    cases fs with
    | nil => cases hg
    | cons g' fs =>
      obtain ⟨set, hset, hrest⟩ := inOrder_cons.mp h
      exact inOrder_cons.mpr ⟨set, hset, ih hg hrest⟩

/-- Items for other fields leave the part as it is. -/
theorem get_inOrder {fs : List (Field α)} {name : String} (hkeeps : Keeps fs name get)
    (hname : name ∉ fs.map Field.name) {ts : List Written} {b : α}
    (h : inOrder fs ts a = some b) : get b = get a := by
  induction fs generalizing ts a with
  | nil =>
    cases ts with
    | nil =>
      cases h
      rfl
    | cons u ts => cases h
  | cons g fs ih =>
    obtain ⟨hg, hfs⟩ := List.forall_mem_cons.mp hkeeps
    obtain ⟨hgname, hname⟩ := not_or.mp (List.mem_cons.not.mp hname)
    cases ts with
    | nil => exact ih hfs hname (inOrder_cons_nil.mp h).2
    | cons u ts =>
      obtain ⟨set, hset, hrest⟩ := inOrder_cons.mp h
      exact (ih hfs hname hrest).trans (hg (Ne.symm hgname) u set hset a)

/-- A part is as the item in the place of its field has set it, or as before when there is none. -/
theorem get_inOrder_item {fs : List (Field α)} (honce : (fs.map Field.name).Nodup) {i : Nat}
    (hf : fs[i]? = some f) (hkeeps : Keeps fs f.name get) {ts : List Written} {b : α}
    (h : inOrder fs ts a = some b) :
    (∀ u, ts[i]? = some u → ∃ set c, f.decoder.seen u = some set ∧ get b = get (set c)) ∧
      (ts[i]? = none → get b = get a) := by
  induction fs generalizing i ts a with
  | nil => cases hf
  | cons g fs ih =>
    obtain ⟨hgname, honce⟩ := List.nodup_cons.mp honce
    obtain ⟨hg, hfs⟩ := List.forall_mem_cons.mp hkeeps
    cases i with
    | zero =>
      cases hf
      cases ts with
      | nil =>
        refine ⟨nofun, fun _ => ?_⟩
        exact get_inOrder hfs hgname (inOrder_cons_nil.mp h).2
      | cons u ts =>
        obtain ⟨set, hset, hrest⟩ := inOrder_cons.mp h
        refine ⟨fun v hv => ?_, nofun⟩
        cases hv
        exact ⟨set, a, hset, get_inOrder hfs hgname hrest⟩
    | succ i =>
      cases ts with
      | nil =>
        have hrest := ih honce hf hfs (inOrder_cons_nil.mp h).2
        exact ⟨nofun, fun _ => hrest.2 rfl⟩
      | cons u ts =>
        obtain ⟨set, hset, hrest⟩ := inOrder_cons.mp h
        have hne : g.name ≠ f.name := fun hsame =>
          hgname (hsame ▸ List.mem_map_of_mem (List.mem_of_getElem? hf))
        obtain ⟨hsome, hnone⟩ := ih honce hf hfs hrest
        exact ⟨hsome, fun h => (hnone h).trans (hg hne u set hset a)⟩

end Record

/-- The value of a key: in an object that of the first member that has the key, in an array the item
in its place. -/
def Written.value? (names : List Char → Bool) (place : Nat) : Written → Option Written
  | .object ms => (ms.find? fun m => names m.1).map Prod.snd
  | .array ts => ts[place]?
  | _ => none

namespace Decoder

variable {α β : Type} {r : Record α} {need : Nat} {ms : List (List Char × Written)} {a : α}

theorem seen_object_eq_some (hr : r.Steady need) (hms : (Written.object ms).Sound) :
    (record r).seen (.object ms) = some a ↔ r.MadeFrom ms a := by
  rw [seen_object hr hms, Record.foldlM_bind_eq_some]

/-- A part of a record is what its field sees in the value of its key, or as in the blank record
when the key has no value. -/
theorem get_of_seen (hr : r.Steady need) (hind : r.Independent) {f : Field α} {i : Nat}
    (hf : r.fields[i]? = some f) {names : List Char → Bool}
    (hkey : ∀ cs, names cs = true ↔ r.hears cs = some (some f)) {get : α → β}
    (hkeeps : Record.Keeps r.fields f.name get) {t : Written} (ht : t.Sound)
    (h : (record r).seen t = some a) :
    (∀ u, t.value? names i = some u → ∃ set b, f.decoder.seen u = some set ∧ get a = get (set b)) ∧
      (t.value? names i = none → get a = get r.blank) := by
  have hmem : f ∈ r.fields := List.mem_of_getElem? hf
  cases t with
  | object ms =>
    rw [seen_object_eq_some hr ht] at h
    refine ⟨fun u hu => ?_, fun hnone => ?_⟩
    · obtain ⟨m, hfind, rfl⟩ := Option.map_eq_some_iff.mp hu
      obtain ⟨hm, before, after, rfl, -⟩ := List.find?_eq_some_iff_append.mp hfind
      obtain ⟨set, hset, hget⟩ :=
        (h.perm hind List.perm_middle).get_member ((hkey m.1).mp hm) hkeeps
      exact ⟨set, r.blank, hset, hget⟩
    · have hfind := List.find?_eq_none.mp (Option.map_eq_none_iff.mp hnone)
      refine h.get_absent hind.names hmem hkeeps fun m hm hhears => ?_
      exact hfind m hm ((hkey m.1).mpr hhears)
  | array ts =>
    rw [seen_fields hr ht] at h
    exact Record.get_inOrder_item (Record.nodup_fieldNames hind.names) hf hkeeps h
  | _ =>
    rw [seen_eq (yields_record_none r 0 (fun _ h => by cases h) fun _ h => by cases h)
      (Nat.zero_le _) ht] at h
    cases h

end Decoder

end Pipewright.Json
