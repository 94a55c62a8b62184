import Pipewright.Document.Parse
import Pipewright.Proofs.Json.Values
import Pipewright.Proofs.Results

/-!
# A document is read back from what is written for it

A document that has been read is in a normal form: its kinds and operators are those that their
words name, and its counts have at most 64 bits.  Such a document is written with every key present,
and each value is one that its field reads back, be it null for what is absent.  So to write a
document and read it again changes nothing, however lenient the first reading was.

* `Document.Normal`, `Document.gives_decoder`: what is read is in normal form.
* `Document.accepts_toValue`: what is in normal form is read back.
* `Document.parse_compact_of_normal`: so is the whole text, when the ids are in order.
* `Document.parse_compact_toValue`: both together.
-/

namespace Pipewright

open Json

/-! ## Normal forms -/

/-- The kind is the one that its word names. -/
def NodeKind.Normal (k : NodeKind) : Prop := ofText k.toText = k

/-- The operator is the one that its word names. -/
def Operator.Normal (o : Operator) : Prop := ofText o.toText = o

instance (k : NodeKind) : Decidable k.Normal := inferInstanceAs (Decidable (_ = _))

instance (o : Operator) : Decidable o.Normal := inferInstanceAs (Decidable (_ = _))

theorem NodeKind.normal_ofText (word : String) : (ofText word).Normal := by
  rw [Normal, toText_ofText]

theorem Operator.normal_ofText (word : String) : (ofText word).Normal := by
  rw [Normal, toText_ofText]

/-- The limits have at most 64 bits. -/
structure Attributes.Normal (a : Attributes) : Prop where
  cpu : ∀ n ∈ a.cpu, n < UInt64.size
  memory : ∀ n ∈ a.memory, n < UInt64.size

instance (a : Attributes) : Decidable a.Normal :=
  decidable_of_iff ((∀ n ∈ a.cpu, n < UInt64.size) ∧ ∀ n ∈ a.memory, n < UInt64.size)
    ⟨fun h => ⟨h.1, h.2⟩, fun h => ⟨h.cpu, h.memory⟩⟩

/-- A node with a kind, an operator and limits in normal form. -/
structure Node.Normal (n : Node) : Prop where
  kind : n.kind.Normal
  operator : ∀ o ∈ n.operator, o.Normal
  attributes : n.attributes.Normal

instance (n : Node) : Decidable n.Normal :=
  decidable_of_iff (n.kind.Normal ∧ (∀ o ∈ n.operator, o.Normal) ∧ n.attributes.Normal)
    ⟨fun h => ⟨h.1, h.2.1, h.2.2⟩, fun h => ⟨h.kind, h.operator, h.attributes⟩⟩

/-- A pipeline of nodes in normal form. -/
def Pipeline.Normal (p : Pipeline) : Prop := ∀ n ∈ p.nodes, n.Normal

instance (p : Pipeline) : Decidable p.Normal :=
  inferInstanceAs (Decidable (∀ n ∈ p.nodes, n.Normal))

/-- A document of nodes in normal form. -/
def Document.Normal (d : Document) : Prop := ∀ p ∈ d.pipelines, p.Normal

instance (d : Document) : Decidable d.Normal :=
  inferInstanceAs (Decidable (∀ p ∈ d.pipelines, p.Normal))

/-! ## What is read is in normal form -/

theorem Attributes.normal_blank : ({} : Attributes).Normal where
  cpu := by simp
  memory := by simp [defaultMemory, UInt64.size]

theorem Attributes.gives_decoder : Attributes.decoder.Gives Attributes.Normal := by
  refine Decoder.gives_record rfl ?_ normal_blank
  have hcount := Decoder.gives_count.optional
  iterate 9 rw [List.forall_mem_cons]
  refine ⟨?label, ?filename, ?runtime, ?yaml, ?cpu, ?memory, ?dependencies, ?outputs, ?settings,
    List.forall_mem_nil _⟩
  case cpu => exact .of_gives hcount rfl fun _ hx _ ha => ⟨hx, ha.memory⟩
  case memory => exact .of_gives hcount rfl fun _ hx _ ha => ⟨ha.cpu, hx⟩
  all_goals exact .of_sets rfl fun _ _ ha => ⟨ha.cpu, ha.memory⟩

theorem Node.gives_decoder : Node.decoder.Gives Node.Normal := by
  have hattributes : Attributes.decoder.orBlank.Gives Attributes.Normal :=
    Attributes.gives_decoder.orBlank Attributes.normal_blank
  have hkind : (lenientText.map NodeKind.ofText).Gives NodeKind.Normal :=
    lenientText.gives_true.map fun word _ => NodeKind.normal_ofText word
  have hoperator : (Decoder.text.map Operator.ofText).Gives Operator.Normal :=
    Decoder.text.gives_true.map fun word _ => Operator.normal_ofText word
  refine Decoder.gives_record rfl ?_ ⟨rfl, fun _ ho => (by cases ho), Attributes.normal_blank⟩
  iterate 5 rw [List.forall_mem_cons]
  refine ⟨?id, ?kind, ?operator, ?attributes, ?inputs, List.forall_mem_nil _⟩
  case kind => exact .of_gives hkind rfl fun _ hx _ hn => ⟨hx, hn.operator, hn.attributes⟩
  case operator =>
    exact .of_gives hoperator.optional rfl fun _ hx _ hn => ⟨hn.kind, hx, hn.attributes⟩
  case attributes => exact .of_gives hattributes rfl fun _ hx _ hn => ⟨hn.kind, hn.operator, hx⟩
  all_goals exact .of_sets rfl fun _ _ hn => ⟨hn.kind, hn.operator, hn.attributes⟩

theorem Pipeline.gives_decoder : Pipeline.decoder.Gives Pipeline.Normal := by
  have hnodes : Node.decoder.list.orBlank.Gives fun ns => ∀ n ∈ ns, n.Normal :=
    Node.gives_decoder.list.orBlank (List.forall_mem_nil _)
  refine Decoder.gives_record rfl ?_ (List.forall_mem_nil _)
  iterate 2 rw [List.forall_mem_cons]
  refine ⟨?id, ?nodes, List.forall_mem_nil _⟩
  case id => exact .of_sets rfl fun _ _ hp => hp
  case nodes => exact .of_gives hnodes rfl fun _ hx _ _ => hx

/-- Every document that is read is in normal form. -/
theorem Document.gives_decoder : Document.decoder.Gives Document.Normal := by
  have hpipelines : Pipeline.decoder.list.orBlank.Gives fun ps => ∀ p ∈ ps, p.Normal :=
    Pipeline.gives_decoder.list.orBlank (List.forall_mem_nil _)
  refine Decoder.gives_record rfl ?_ (List.forall_mem_nil _)
  rw [List.forall_mem_singleton]
  exact .of_gives hpipelines rfl fun _ hx _ _ => hx

/-! ## What is in normal form is read back -/

namespace Json.Decoder

variable {α : Type} {d : Decoder α} {need : Nat} {toValue : α → Value}

/-- What may be absent is read back when what is present is. -/
theorem accepts_optionalValue {o : Option α} (h : ∀ a ∈ o, d.Accepts need (toValue a) a)
    (hnull : ∀ a, toValue a ≠ .null) : d.optional.Accepts need (optionalValue toValue o) o := by
  cases o with
  | none => exact accepts_null
  | some a => exact (h a rfl).optional (hnull a)

/-- A list is read back when its entries are. -/
theorem accepts_listValue {as : List α} (h : ∀ a ∈ as, d.Accepts need (toValue a) a) :
    d.list.orBlank.Accepts (need + 1) (listValue toValue as) as :=
  (accepts_list h).orBlank nofun

end Json.Decoder

open Decoder

theorem accepts_lenientText (s : String) : lenientText.Accepts 0 (.string s) s :=
  (accepts_text s).orBlank nofun

/-- A text is a scalar that stands for itself. -/
theorem accepts_scalarText (s : String) : scalarText.Accepts 0 (.string s) s :=
  fun layout level depth hdepth blanks hblanks more hmore =>
    (accepts_value (.string s) (.string s) (.string 0 s) layout level depth hdepth blanks hblanks
      more hmore).bind_nil (.pure s more)

theorem Setting.accepts_toValue (s : Setting) : Setting.decoder.Accepts 1 s.toValue s :=
  accepts_record (by decide)
    (.sets (accepts_text s.key) rfl (.sets (accepts_scalarText s.value) rfl (.nil _)))

theorem Link.accepts_toValue (l : Link) : Link.decoder.Accepts 1 l.toValue l := by
  have houtlet : Decoder.text.optional.Accepts 0 (optionalValue .string l.outlet) l.outlet :=
    accepts_optionalValue (fun s _ => accepts_text s) nofun
  exact accepts_record (by decide)
    (.sets (accepts_text l.target) rfl (.sets houtlet rfl (.nil _)))

theorem LinkGroup.accepts_toValue (g : LinkGroup) :
    LinkGroup.decoder.Accepts 3 g.toValue g := by
  have hid : Decoder.text.optional.Accepts 2 (optionalValue .string g.id) g.id :=
    (accepts_optionalValue (fun s _ => accepts_text s) nofun).mono (Nat.zero_le 2)
  have hlinks : Link.decoder.list.orBlank.Accepts 2 (listValue Link.toValue g.links) g.links :=
    accepts_listValue fun l _ => l.accepts_toValue
  exact accepts_record (by decide) (.sets hid rfl (.sets hlinks rfl (.nil _)))

theorem Attributes.accepts_toValue {a : Attributes} (h : a.Normal) :
    Attributes.decoder.Accepts 3 a.toValue a := by
  have hoptional (o : Option String) :
      Decoder.text.optional.Accepts 2 (optionalValue .string o) o :=
    (accepts_optionalValue (fun s _ => accepts_text s) nofun).mono (Nat.zero_le 2)
  have hlenient (s : String) : lenientText.Accepts 2 (.string s) s :=
    (accepts_lenientText s).mono (Nat.zero_le 2)
  have hcount {o : Option Nat} (ho : ∀ n ∈ o, n < UInt64.size) :
      Decoder.count.optional.Accepts 2 (optionalValue countValue o) o :=
    (accepts_optionalValue (fun n hn => accepts_count (ho n hn)) nofun).mono
      (Nat.zero_le 2)
  have hnames (ns : List String) :
      Decoder.text.list.orBlank.Accepts 2 (listValue .string ns) ns :=
    (accepts_listValue fun n _ => accepts_text n).mono (Nat.le_succ 1)
  have hsettings : Setting.decoder.list.orBlank.Accepts 2 (listValue Setting.toValue a.settings)
      a.settings :=
    accepts_listValue fun s _ => s.accepts_toValue
  exact accepts_record (by decide)
    (.sets (hoptional a.label) rfl
    (.sets (hoptional a.filename) rfl
    (.sets (hlenient a.runtimeEnvironment) rfl
    (.sets (hlenient a.environmentYaml) rfl
    (.sets (hcount h.cpu) rfl
    (.sets (hcount h.memory) rfl
    (.sets (hnames a.dependencies) rfl
    (.sets (hnames a.outputs) rfl
    (.sets hsettings rfl (.nil _))))))))))

theorem Node.accepts_toValue {n : Node} (h : n.Normal) : Node.decoder.Accepts 5 n.toValue n := by
  have hkind : (lenientText.map NodeKind.ofText).Accepts 4 (.string n.kind.toText) n.kind := by
    have hread := (accepts_lenientText n.kind.toText).map NodeKind.ofText
    rw [h.kind] at hread
    exact hread.mono (Nat.zero_le 4)
  have hoperator : (Decoder.text.map Operator.ofText).optional.Accepts 4
      (optionalValue (fun o => .string o.toText) n.operator) n.operator := by
    refine accepts_optionalValue (fun o ho => ?_) nofun
    have hread := (accepts_text o.toText).map Operator.ofText
    rw [h.operator o ho] at hread
    exact hread.mono (Nat.zero_le 4)
  have hattributes : Attributes.decoder.orBlank.Accepts 3 n.attributes.toValue n.attributes :=
    (Attributes.accepts_toValue h.attributes).orBlank nofun
  have hinputs : LinkGroup.decoder.list.orBlank.Accepts 4 (listValue LinkGroup.toValue n.inputs)
      n.inputs :=
    accepts_listValue fun g _ => g.accepts_toValue
  exact accepts_record (by decide)
    (.sets ((accepts_text n.id).mono (Nat.zero_le 4)) rfl
    (.sets hkind rfl
    (.sets hoperator rfl
    (.sets (hattributes.mono (Nat.le_succ 3)) rfl
    (.sets hinputs rfl (.nil _))))))

theorem Pipeline.accepts_toValue {p : Pipeline} (h : p.Normal) :
    Pipeline.decoder.Accepts 7 p.toValue p := by
  have hid : lenientText.Accepts 6 (.string p.id) p.id :=
    (accepts_lenientText p.id).mono (Nat.zero_le 6)
  have hnodes : Node.decoder.list.orBlank.Accepts 6 (listValue Node.toValue p.nodes) p.nodes :=
    accepts_listValue fun n hn => Node.accepts_toValue (h n hn)
  exact accepts_record (by decide) (.sets hid rfl (.sets hnodes rfl (.nil _)))

/-- What is written for a document in normal form is read as that document. -/
theorem Document.accepts_toValue {d : Document} (h : d.Normal) :
    Document.decoder.Accepts 9 d.toValue d := by
  have hpipelines : Pipeline.decoder.list.orBlank.Accepts 8
      (listValue Pipeline.toValue d.pipelines) d.pipelines :=
    accepts_listValue fun p hp => Pipeline.accepts_toValue (h p hp)
  exact accepts_record (by decide) (.sets hpipelines rfl (.nil _))

/-! ## Writing and reading again -/

/-- A document that has been read is in normal form, and its ids are in order. -/
theorem Document.parse_ok {source : String} {d : Document} (h : parse source = .ok d) :
    d.Normal ∧ d.idFault? = none := by
  rw [parse] at h
  split at h
  · cases h
  · next e he =>
    split at h
    · cases h
    · next hfault =>
      obtain rfl := Except.ok.inj h
      have hnormal : ∀ b, Decoder.parse Document.decoder source = .ok b → b.Normal := by
        intro b hb
        exact Reader.Gives.of_run (.bind_of (gives_decoder _) fun a ha => .bind fun _ => .pure ha) hb
      exact ⟨hnormal _ he, hfault⟩

/-- A document in normal form, with its ids in order, is read from the text that is written for
it. -/
theorem Document.parse_compact_of_normal {d : Document} (h : d.Normal) (hids : d.idFault? = none) :
    parse d.toValue.compact = .ok d := by
  have hread : Decoder.parse Document.decoder d.toValue.compact = .ok d :=
    parse_compact (accepts_toValue h) (by decide)
  rw [parse, hread]
  simp only [hids]

/-- A document that has been read from any text is read again from the text that is written for it,
which has every key, with null for what is absent. -/
theorem Document.parse_compact_toValue {source : String} {d : Document}
    (h : parse source = .ok d) : parse d.toValue.compact = .ok d := by
  obtain ⟨hnormal, hids⟩ := parse_ok h
  exact parse_compact_of_normal hnormal hids

/-- A text that leaves much of a document to be guessed: records as arrays, an older name of a key,
a number as the value of a setting, null for no memory, a kind and an operator of their own, the
greatest count, and escapes of a control and of the two halves of a character. -/
def lenientSource : String :=
  "[[[\"\",[[\"\\u0001\\ud83d\\ude00\",\"super_node\",\"own-node\",\x7b\"output\":[\"x\"]," ++
  "\"cpu\":18446744073709551615,\"memory\":null,\"env_vars\":[[\"A\",7]]\x7d]]]]]"

/-- The document of the lenient text. -/
def lenientDocument : Document := ⟨[⟨"", [
  { id := "\u0001😀", kind := .other "super_node", operator := some (.unknown "own-node"),
    attributes :=
      { cpu := some 18446744073709551615, memory := none, outputs := ["x"],
        settings := [⟨"A", "7"⟩] } }]⟩]⟩

theorem Document.parse_compact_lenientDocument :
    parse lenientSource = .ok lenientDocument ∧
      parse lenientDocument.toValue.compact = .ok lenientDocument := by
  have hread : parse lenientSource = .ok lenientDocument := eq_ok_of_toOption (by decide +kernel)
  exact ⟨hread, parse_compact_toValue hread⟩

end Pipewright
