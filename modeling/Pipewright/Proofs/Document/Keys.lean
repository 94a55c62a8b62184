import Pipewright.Document.Parse
import Pipewright.Proofs.Json.Makings
import Pipewright.Proofs.Results

/-!
# The keys of pipeline documents

Each part of a document is a record with keys of its own.  Most keys are lenient: null and nothing
are alike as their values.  Two keys have an older spelling.  The table of the keys is given here on
its own, and the fields of the decoders are shown to fit it.

* `Part`, `Key`, `Part.keys`: the table.
* `Part.decoder`, `Part.record`: what reads a part.
* `Part.fieldsFit`, `Part.independent`: the fields of a part.
* `Part.seen_object`, `Part.seen_array`, `Part.seen_list`: what is seen for a part.
-/

namespace Pipewright

open Json Json.Reader

/-! ## The table -/

/-- The parts of a document that have keys. -/
inductive Part where
  | document
  | pipeline
  | node
  | attributes
  | setting
  | group
  | link

/-- What the value of a key is: something without keys of its own, a part, or a list of parts. -/
inductive Shape where
  | plain
  | part (p : Part)
  | parts (p : Part)

/-- A key of a part. -/
structure Key where
  name : String
  /-- The older spelling of the key. -/
  older : Option String := none
  /-- Null and nothing are alike as values of the key. -/
  lenient : Bool := true
  shape : Shape := .plain

/-- The key is the one that is written so. -/
def Key.names (k : Key) (cs : List Char) : Bool :=
  (heard cs).any fun name => name = k.name || k.older = some name

namespace Part

/-- The keys of a part, in the order in which an array lists their values. -/
def keys : Part → List Key
  | document => [{ name := "pipelines", shape := .parts .pipeline }]
  | pipeline => [{ name := "id" }, { name := "nodes", shape := .parts .node }]
  | node => [
    { name := "id", lenient := false },
    { name := "type" },
    { name := "op" },
    { name := "app_data", shape := .part .attributes },
    { name := "inputs", shape := .parts .group }]
  | attributes => [
    { name := "label" },
    { name := "filename" },
    { name := "runtime_environment" },
    { name := "environment_yaml" },
    { name := "cpu" },
    { name := "memory", lenient := false },
    { name := "dependencies" },
    { name := "outputs", older := some "output" },
    { name := "env_vars", shape := .parts .setting }]
  | setting => [{ name := "key", older := some "env_var", lenient := false }, { name := "value" }]
  | group => [{ name := "id" }, { name := "links", shape := .parts .link }]
  | link => [{ name := "node_id_ref", lenient := false }, { name := "port_id_ref" }]

/-- What is read for a part. -/
abbrev Content : Part → Type
  | document => Document
  | pipeline => Pipeline
  | node => Node
  | attributes => Attributes
  | setting => Setting
  | group => LinkGroup
  | link => Link

/-- What reads a part where it stands.  Attributes may be null. -/
def decoder : (p : Part) → Decoder p.Content
  | document => Document.decoder
  | pipeline => Pipeline.decoder
  | node => Node.decoder
  | attributes => Attributes.decoder.orBlank
  | setting => Setting.decoder
  | group => LinkGroup.decoder
  | link => Link.decoder

end Part

/-- The record that a decoder reads. -/
def recordOf {α : Type} {r : Record α} (d : Decoder α) (_ : d = .record r) : Record α := r

/-- The record of a part. -/
def Part.record : (p : Part) → Record p.Content
  | document => recordOf Document.decoder rfl
  | pipeline => recordOf Pipeline.decoder rfl
  | node => recordOf Node.decoder rfl
  | attributes => recordOf Attributes.decoder rfl
  | setting => recordOf Setting.decoder rfl
  | group => recordOf LinkGroup.decoder rfl
  | link => recordOf Link.decoder rfl

/-! ## Texts of scalars -/

/-- What is no scalar is no text of one. -/
theorem outcome_scalarText_never {v : Value → Prop}
    (hv : ∀ w, v w → ∃ issue, scalarText? w = .error issue)
    {r : Reader Value} (h : r.Gives v) (text more : List Char) :
    Outcome (do match scalarText? (← r) with | .ok s => return s | .error issue => failOpen issue)
      text none more := by
  refine .of_never (.bind_of h fun w hw => ?_) text more
  obtain ⟨issue, hissue⟩ := hv w hw
  rw [hissue]
  exact .failOpen _ _

theorem yields_scalarText (t : Written) :
    scalarText.Yields 0 t (t.scalar?.bind fun v => (scalarText? v).toOption) := by
  intro depth hdepth text h blanks hblanks more hmore
  have hscalar : Scalar t → Outcome (scalarText.read depth) (blanks ++ text)
      (t.scalar?.bind fun v => (scalarText? v).toOption) more := by
    intro ht
    refine .bind_nil (Decoder.yields_value ht depth hdepth text h blanks hblanks more hmore)
      fun v _ => ?_
    cases scalarText? v with
    | ok s => exact .pure s more
    | error issue => exact .failOpen _ _ _
  cases t with
  | null => exact hscalar .null
  | bool b => exact hscalar (.bool b)
  | number cs => exact hscalar (.number cs)
  | string cs => exact hscalar (.string cs)
  | array ts =>
    show Outcome (readValue depth >>= _) _ none more
    rw [readValue.eq_def, bind_bind]
    refine Decoder.outcome_at h (fun x rest _ hx => ?_) hblanks
    obtain rfl : x = '[' := hx
    refine outcome_scalarText_never (v := fun w => ∃ items, w = .array items) ?_ ?_ _ _
    · rintro _ ⟨items, rfl⟩
      exact ⟨_, rfl⟩
    · split <;> rename_i hnext <;> try cases hnext
      · split
        · exact .failAtNext _ _
        · exact gives_inSquare (fun _ => .bind fun items => .pure ⟨items, rfl⟩) _
      · contradiction
  | object ms =>
    show Outcome (readValue depth >>= _) _ none more
    rw [readValue.eq_def, bind_bind]
    refine Decoder.outcome_at h (fun x rest _ hx => ?_) hblanks
    obtain rfl : x = '\x7b' := hx
    refine outcome_scalarText_never (v := fun w => ∃ members, w = .object members) ?_ ?_ _ _
    · rintro _ ⟨members, rfl⟩
      exact ⟨_, rfl⟩
    · split <;> rename_i hnext <;> try cases hnext
      · split
        · exact .failAtNext _ _
        · exact gives_inCurly (fun _ => .bind fun members => .pure ⟨members, rfl⟩) _
      · contradiction

theorem finds_scalarText : scalarText.Finds := by
  intro depth text
  refine .bind (Decoder.leads_readValue depth text) fun v rest h => ?_
  rcases h with ⟨items, rfl⟩ | ⟨members, rfl⟩ | h
  · exact .failOpen _
  · exact .failOpen _
  · split
    · exact .pure h
    · exact .failOpen _

theorem steady_scalarText : scalarText.Steady 0 :=
  .of_yields finds_scalarText (Nat.zero_le _) fun t => ⟨_, yields_scalarText t⟩

theorem seen_scalarText_null : scalarText.seen .null = some "" :=
  Decoder.seen_eq (yields_scalarText .null) (Nat.zero_le _) Decoder.sound_null

/-! ## Fields fit keys -/

/-- What the shape reads from the first tree it reads from the second one too. -/
def Shape.Alike : Shape → Written → Written → Prop
  | plain, t, u => t = u
  | part p, t, u => ∀ a, p.decoder.seen t = some a → p.decoder.seen u = some a
  | parts p, t, u => ∀ as, p.decoder.list.orBlank.seen t = some as →
      p.decoder.list.orBlank.seen u = some as

/-- The field has the names of the key.  If the key is lenient, the field may be absent, and a null
leaves the blank record as it is. -/
structure Fits {α : Type} (blank : α) (need : Nat) (f : Json.Field α) (k : Key) : Prop where
  name : f.name = k.name
  aliases : f.aliases = k.older.toList
  steady : f.decoder.Steady need
  null : k.lenient = true → f.required = false ∧
    ∃ set, f.decoder.seen .null = some set ∧ set blank = blank
  alike : ∀ t u, k.shape.Alike t u →
    ∀ set, f.decoder.seen t = some set → f.decoder.seen u = some set

namespace Fits

variable {α β : Type} {blank : α} {need enough : Nat} {f : Json.Field α} {k : Key} {d : Decoder β}
  {set : β → α → α}

/-- A field that sets a part of the record for which the key stands. -/
theorem of_sets (hf : f.decoder = d.sets set) (hname : f.name = k.name)
    (haliases : f.aliases = k.older.toList) (hd : d.Steady need) (hneed : need ≤ enough)
    (henough : enough ≤ Decoder.maxDepth)
    (hnull : k.lenient = true →
      f.required = false ∧ ∃ x, d.seen .null = some x ∧ set x blank = blank)
    (halike : ∀ t u, k.shape.Alike t u → ∀ x, d.seen t = some x → d.seen u = some x) :
    Fits blank enough f k where
  name := hname
  aliases := haliases
  steady := hf ▸ (hd.mono hneed henough).map set
  null hlenient := by
    obtain ⟨hrequired, x, hx, hblank⟩ := hnull hlenient
    refine ⟨hrequired, set x, ?_, hblank⟩
    rw [hf, Decoder.sets, Decoder.seen_map, hx]
    rfl
  alike t u htu s hs := by
    rw [hf, Decoder.sets, Decoder.seen_map] at hs ⊢
    obtain ⟨x, hx, rfl⟩ := Option.map_eq_some_iff.mp hs
    rw [halike t u htu x hx]
    rfl

/-- A plain key, which stands for something without keys of its own. -/
theorem plain (hf : f.decoder = d.sets set) (hname : f.name = k.name)
    (haliases : f.aliases = k.older.toList) (hshape : k.shape = .plain) (hd : d.Steady need)
    (hneed : need ≤ enough) (henough : enough ≤ Decoder.maxDepth)
    (hnull : k.lenient = true →
      f.required = false ∧ ∃ x, d.seen .null = some x ∧ set x blank = blank) :
    Fits blank enough f k := by
  refine of_sets hf hname haliases hd hneed henough hnull fun t u htu x hx => ?_
  rw [hshape] at htu
  exact htu ▸ hx

end Fits

namespace Part

/-- The number of brackets that may be open within a part. -/
def need : Part → Nat
  | link => 0
  | setting => 0
  | group => 2
  | attributes => 2
  | node => 4
  | pipeline => 6
  | document => 8

/-- The fields of the part fit its keys one by one. -/
def FieldsFit (p : Part) : Prop :=
  List.Forall₂ (Fits p.record.blank p.need) p.record.fields p.keys

theorem need_add_two_le (p : Part) : p.need + 2 ≤ Decoder.maxDepth := by
  cases p <;> decide

theorem need_le (p : Part) : p.need ≤ Decoder.maxDepth :=
  Nat.le_of_add_right_le p.need_add_two_le

theorem FieldsFit.steady_record {p : Part} (h : p.FieldsFit) : p.record.Steady p.need where
  other := by cases p <;> rfl
  fields f hf := by
    obtain ⟨k, -, hfits⟩ := exists_mem_of_forall₂ h.flip hf
    exact hfits.steady
  depth := Nat.le_of_succ_le p.need_add_two_le

theorem FieldsFit.steady {p : Part} (h : p.FieldsFit) : p.decoder.Steady (p.need + 1) := by
  have hrecord := Decoder.steady_record h.steady_record
  cases p with
  | attributes => exact hrecord.orBlank
  | _ => exact hrecord

theorem FieldsFit.steady_items {p : Part} (h : p.FieldsFit) :
    p.decoder.list.Steady (p.need + 2) :=
  h.steady.list p.need_add_two_le

theorem FieldsFit.steady_list {p : Part} (h : p.FieldsFit) :
    p.decoder.list.orBlank.Steady (p.need + 2) :=
  h.steady_items.orBlank

theorem fieldsFit_link : link.FieldsFit := by
  have htext := Decoder.steady_textCalled "a string"
  refine .cons ?target (.cons ?outlet .nil)
  case target => exact .plain rfl rfl rfl rfl htext (Nat.zero_le _) link.need_le nofun
  case outlet =>
    exact .plain rfl rfl rfl rfl htext.optional (Nat.zero_le _) link.need_le
      fun _ => ⟨rfl, none, Decoder.seen_optional_null _, rfl⟩

theorem fieldsFit_setting : setting.FieldsFit := by
  have htext := Decoder.steady_textCalled "a string"
  refine .cons ?key (.cons ?value .nil)
  case key => exact .plain rfl rfl rfl rfl htext (Nat.zero_le _) setting.need_le nofun
  case value =>
    exact .plain rfl rfl rfl rfl steady_scalarText (Nat.zero_le _) setting.need_le
      fun _ => ⟨rfl, "", seen_scalarText_null, rfl⟩

theorem fieldsFit_group : group.FieldsFit := by
  have htext := Decoder.steady_textCalled "a string"
  refine .cons ?id (.cons ?links .nil)
  case id =>
    exact .plain rfl rfl rfl rfl htext.optional (Nat.zero_le _) group.need_le
      fun _ => ⟨rfl, none, Decoder.seen_optional_null _, rfl⟩
  case links =>
    exact .of_sets rfl rfl rfl fieldsFit_link.steady_list (Nat.le_refl _) group.need_le
      (fun _ => ⟨rfl, [], Decoder.seen_orBlank_null _, rfl⟩) fun _ _ h => h

theorem fieldsFit_attributes : attributes.FieldsFit := by
  have htext := Decoder.steady_textCalled "a string"
  have htexts := (htext.list (by decide)).orBlank
  refine .cons ?label (.cons ?filename (.cons ?runtime (.cons ?yaml (.cons ?cpu (.cons ?memory
    (.cons ?dependencies (.cons ?outputs (.cons ?settings .nil))))))))
  case label | filename =>
    exact .plain rfl rfl rfl rfl htext.optional (Nat.zero_le _) attributes.need_le
      fun _ => ⟨rfl, none, Decoder.seen_optional_null _, rfl⟩
  case runtime | yaml =>
    exact .plain rfl rfl rfl rfl htext.orBlank (Nat.zero_le _) attributes.need_le
      fun _ => ⟨rfl, "", Decoder.seen_orBlank_null _, rfl⟩
  case cpu =>
    exact .plain rfl rfl rfl rfl Decoder.steady_count.optional (Nat.zero_le _) attributes.need_le
      fun _ => ⟨rfl, none, Decoder.seen_optional_null _, rfl⟩
  case memory =>
    exact .plain rfl rfl rfl rfl Decoder.steady_count.optional (Nat.zero_le _) attributes.need_le
      nofun
  case dependencies | outputs =>
    exact .plain rfl rfl rfl rfl htexts (by decide) attributes.need_le
      fun _ => ⟨rfl, [], Decoder.seen_orBlank_null _, rfl⟩
  case settings =>
    exact .of_sets rfl rfl rfl fieldsFit_setting.steady_list (Nat.le_refl _) attributes.need_le
      (fun _ => ⟨rfl, [], Decoder.seen_orBlank_null _, rfl⟩) fun _ _ h => h

theorem fieldsFit_node : node.FieldsFit := by
  have htext := Decoder.steady_textCalled "a string"
  refine .cons ?id (.cons ?kind (.cons ?operator (.cons ?attributes (.cons ?inputs .nil))))
  case id => exact .plain rfl rfl rfl rfl htext (Nat.zero_le _) node.need_le nofun
  case kind =>
    refine .plain rfl rfl rfl rfl (htext.orBlank.map _) (Nat.zero_le _) node.need_le
      fun _ => ⟨rfl, .unspecified, ?_, rfl⟩
    rw [lenientText, Decoder.seen_map, Decoder.seen_orBlank_null]
    rfl
  case operator =>
    exact .plain rfl rfl rfl rfl (htext.map _).optional (Nat.zero_le _) node.need_le
      fun _ => ⟨rfl, none, Decoder.seen_optional_null _, rfl⟩
  case attributes =>
    exact .of_sets rfl rfl rfl fieldsFit_attributes.steady (by decide) node.need_le
      (fun _ => ⟨rfl, {}, Decoder.seen_orBlank_null _, rfl⟩) fun _ _ h => h
  case inputs =>
    exact .of_sets rfl rfl rfl fieldsFit_group.steady_list (Nat.le_refl _) node.need_le
      (fun _ => ⟨rfl, [], Decoder.seen_orBlank_null _, rfl⟩) fun _ _ h => h

theorem fieldsFit_pipeline : pipeline.FieldsFit := by
  refine .cons ?id (.cons ?nodes .nil)
  case id =>
    exact .plain rfl rfl rfl rfl (Decoder.steady_textCalled _).orBlank (Nat.zero_le _)
      pipeline.need_le fun _ => ⟨rfl, "", Decoder.seen_orBlank_null _, rfl⟩
  case nodes =>
    exact .of_sets rfl rfl rfl fieldsFit_node.steady_list (Nat.le_refl _) pipeline.need_le
      (fun _ => ⟨rfl, [], Decoder.seen_orBlank_null _, rfl⟩) fun _ _ h => h

theorem fieldsFit_document : document.FieldsFit := by
  refine .cons ?pipelines .nil
  exact .of_sets rfl rfl rfl fieldsFit_pipeline.steady_list (Nat.le_refl _) document.need_le
    (fun _ => ⟨rfl, [], Decoder.seen_orBlank_null _, rfl⟩) fun _ _ h => h

/-- The fields of each part fit the table. -/
theorem fieldsFit (p : Part) : p.FieldsFit := by
  cases p with
  | document => exact fieldsFit_document
  | pipeline => exact fieldsFit_pipeline
  | node => exact fieldsFit_node
  | attributes => exact fieldsFit_attributes
  | setting => exact fieldsFit_setting
  | group => exact fieldsFit_group
  | link => exact fieldsFit_link

/-- No two fields of a part have a name in common or set the same. -/
theorem independent (p : Part) : p.record.Independent where
  names := by cases p <;> decide
  commutes := by
    -- A pair of fields is two setters of different components, which commute by computation.
    cases p <;>
      repeat' first
        | exact .nil
        | refine .cons ?_ ?_
        | exact List.forall_mem_nil _
        | refine List.forall_mem_cons.mpr ⟨?_, ?_⟩
        | exact Json.Field.commutes_sets rfl rfl fun _ _ _ => rfl

/-! ## What the keys of a part name -/

theorem exists_field {p : Part} {k : Key} (hk : k ∈ p.keys) :
    ∃ f ∈ p.record.fields, Fits p.record.blank p.need f k :=
  exists_mem_of_forall₂ p.fieldsFit hk

theorem exists_key {p : Part} {f : Json.Field p.Content} (hf : f ∈ p.record.fields) :
    ∃ k ∈ p.keys, Fits p.record.blank p.need f k :=
  exists_mem_of_forall₂ p.fieldsFit.flip hf

/-- What the key names the field hears. -/
theorem names_iff {p : Part} {f : Json.Field p.Content} {k : Key} (hf : f ∈ p.record.fields)
    (hfits : Fits p.record.blank p.need f k) {cs : List Char} :
    k.names cs = true ↔ p.record.hears cs = some (some f) := by
  rw [Record.hears_eq_some p.independent.names hf, hfits.name, hfits.aliases, Key.names,
    Option.any_eq_true]
  refine exists_congr fun key => and_congr_right fun _ => ?_
  rw [Bool.or_eq_true, decide_eq_true_eq, decide_eq_true_eq, List.mem_cons,
    Option.mem_toList]

/-- What is heard and no key of the part names is skipped. -/
theorem hears_eq_none {p : Part} {cs : List Char} {key : String} (hcs : heard cs = some key)
    (hother : ∀ k ∈ p.keys, k.names cs = false) : p.record.hears cs = some none := by
  cases hfield : p.record.field? key with
  | none => rw [Record.hears, hcs, Option.map_some, hfield]
  | some f =>
    have hhears : p.record.hears cs = some (some f) := by
      rw [Record.hears, hcs, Option.map_some, hfield]
    obtain ⟨k, hk, hfits⟩ := exists_key (Record.mem_fields_of_hears hhears)
    have hnames := (names_iff (Record.mem_fields_of_hears hhears) hfits).mpr hhears
    rw [hother k hk] at hnames
    cases hnames

/-! ## What is seen for a part -/

/-- Away from null a part is what its record is. -/
theorem seen_eq_seen_record (p : Part) {t : Written} (ht : t ≠ .null) :
    p.decoder.seen t = (Decoder.record p.record).seen t := by
  cases p with
  | attributes =>
    exact (Decoder.steady_record attributes.fieldsFit.steady_record).seen_orBlank ht
  | _ => rfl

theorem seen_object {p : Part} {ms : List (List Char × Written)} (hms : (Written.object ms).Sound)
    {a : p.Content} : p.decoder.seen (.object ms) = some a ↔ p.record.MadeFrom ms a := by
  rw [p.seen_eq_seen_record (t := .object ms) nofun,
    Decoder.seen_object_eq_some p.fieldsFit.steady_record hms]

theorem seen_array {p : Part} {ts : List Written} (hts : (Written.array ts).Sound) :
    p.decoder.seen (.array ts) = Record.inOrder p.record.fields ts p.record.blank := by
  rw [p.seen_eq_seen_record (t := .array ts) nofun,
    Decoder.seen_fields p.fieldsFit.steady_record hts]

/-- A list of parts is what its items are. -/
theorem seen_list {p : Part} {ts : List Written} (hts : (Written.array ts).Sound) :
    p.decoder.list.orBlank.seen (.array ts) = ts.mapM p.decoder.seen := by
  rw [p.fieldsFit.steady_items.seen_orBlank (t := .array ts) nofun,
    p.fieldsFit.steady.seen_list p.need_add_two_le hts]

/-- Only null and arrays are lists of parts. -/
theorem eq_of_seen_list {p : Part} {t : Written} (ht : t.Sound) {as : List p.Content}
    (h : p.decoder.list.orBlank.seen t = some as) :
    t = .null ∧ as = [] ∨ ∃ ts, t = .array ts ∧ ts.mapM p.decoder.seen = some as := by
  by_cases hnull : t = .null
  · subst hnull
    rw [Decoder.seen_orBlank_null] at h
    exact .inl ⟨rfl, (Option.some.inj h).symm⟩
  by_cases harray : ∃ ts, t = .array ts
  · obtain ⟨ts, rfl⟩ := harray
    rw [seen_list ht] at h
    exact .inr ⟨ts, rfl, h⟩
  · have hnone := Decoder.yields_list_none p.decoder 0 fun ts hts => harray ⟨ts, hts⟩
    rw [p.fieldsFit.steady_items.seen_orBlank hnull, Decoder.seen_eq hnone (Nat.zero_le _) ht] at h
    cases h

/-- Attributes without members are the blank ones, as null is. -/
theorem seen_attributes_empty : attributes.decoder.seen (.object []) = some {} := by
  have hsound : (Written.object []).Sound :=
    Written.sound_object_iff.mpr fun m hm => by cases hm
  refine (seen_object hsound).mpr ⟨[], .nil, List.nodup_nil, ?_, rfl⟩
  simp [record, recordOf]

theorem seen_attributes_null : attributes.decoder.seen .null = some {} :=
  Decoder.seen_orBlank_null _

end Part

end Pipewright
