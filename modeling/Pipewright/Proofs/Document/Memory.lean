import Pipewright.Proofs.Document.Keys

/-!
# The memory that a text says

The nodes of a document stand in its text one by one, and there each node may say how much memory it
needs.  A node that says nothing gets the default, and one that says null gets no limit.

* `Part.value?`, `Part.items`: the value of a key.
* `Written.nodes`, `Written.memory?`: the nodes of a text, and what they say about memory.
* `Document.nodes_of_seen`: the nodes of a text are those of its document.
* `Node.memory_of_seen`: what comes of nothing and of null.
-/

namespace Pipewright

open Json Json.Reader

namespace Part

/-! ## Values of keys -/

/-- What a part has for one of its keys, be it an object or an array. -/
def value? (p : Part) (name : String) (t : Written) : Option Written :=
  (p.keys.find? fun k => k.name = name).bind fun k =>
    t.value? k.names (p.keys.findIdx fun k => k.name = name)

/-- The items that a part has for one of its keys. -/
def items (p : Part) (name : String) (t : Written) : List Written :=
  match p.value? name t with
  | some (.array ts) => ts
  | _ => []

end Part

namespace Json.Written

/-- The nodes of a document, as they are written. -/
def nodes (t : Written) : List Written :=
  (Part.document.items "pipelines" t).flatMap fun p => Part.pipeline.items "nodes" p

/-- What a node says about its memory. -/
def memory? (t : Written) : Option Written :=
  (Part.node.value? "app_data" t).bind fun a => Part.attributes.value? "memory" a

/-- What stands for a key has a text. -/
theorem sound_of_value? {t u : Written} (ht : t.Sound) {names : List Char → Bool} {i : Nat}
    (h : t.value? names i = some u) : u.Sound := by
  cases t with
  | object ms =>
    obtain ⟨m, hm, rfl⟩ := Option.map_eq_some_iff.mp h
    exact (sound_object_iff.mp ht m (List.mem_of_find?_eq_some hm)).2
  | array ts => exact sound_array_iff.mp ht u (List.mem_of_getElem? h)
  | _ => cases h

end Json.Written

namespace Part

/-- A field that sets another part leaves this one as it is. -/
theorem keeps_sets {α β γ : Type} {f : Json.Field α} {d : Decoder β} {put : β → α → α}
    {get : α → γ} (hf : f.decoder = d.sets put) (h : ∀ x a, get (put x a) = get a) :
    ∀ t set, f.decoder.seen t = some set → ∀ a, get (set a) = get a := by
  intro t set hset a
  rw [hf, Decoder.sets, Decoder.seen_map] at hset
  obtain ⟨x, -, rfl⟩ := Option.map_eq_some_iff.mp hset
  exact h x a

variable {p : Part} {β : Type} {d : Decoder β} {f : Json.Field p.Content} {i : Nat} {k : Key}
  {set : β → p.Content → p.Content} {get : p.Content → β} {t : Written} {a : p.Content}

/-- What the field of a key sets is what it sees in the value of the key, or as in the blank record
when the key has no value. -/
theorem get_of_seen (hk : p.keys[i]? = some k) (hfield : p.record.fields[i]? = some f)
    (hf : f.decoder = d.sets set) (hget : ∀ x a, get (set x a) = x)
    (hkeeps : Record.Keeps p.record.fields f.name get) (ht : t.Sound) (hnull : t ≠ .null)
    (h : p.decoder.seen t = some a) :
    (∀ u, t.value? k.names i = some u → u.Sound ∧ d.seen u = some (get a)) ∧
      (t.value? k.names i = none → get a = get p.record.blank) := by
  obtain ⟨f', hf', hfits⟩ := exists_getElem?_of_forall₂ p.fieldsFit.flip hk
  cases hfield.symm.trans hf'
  rw [p.seen_eq_seen_record hnull] at h
  obtain ⟨hsome, hnone⟩ := Decoder.get_of_seen p.fieldsFit.steady_record p.independent hfield
    (fun cs => names_iff (List.mem_of_getElem? hfield) hfits) hkeeps ht h
  refine ⟨fun u hu => ⟨Written.sound_of_value? ht hu, ?_⟩, hnone⟩
  obtain ⟨s, b, hs, hsame⟩ := hsome u hu
  rw [hf, Decoder.sets, Decoder.seen_map] at hs
  obtain ⟨x, hx, rfl⟩ := Option.map_eq_some_iff.mp hs
  rw [hx, hsame, hget]

end Part

/-! ## The nodes of a document -/

/-- The items that stand for a key are read one by one for the parts in its list. -/
theorem Part.forall₂_items {p q : Part} {name : String} {t : Written} {as : List q.Content}
    (h : (∀ u, p.value? name t = some u → u.Sound ∧ q.decoder.list.orBlank.seen u = some as) ∧
      (p.value? name t = none → as = [])) :
    List.Forall₂ (fun u a => u.Sound ∧ q.decoder.seen u = some a) (p.items name t) as := by
  obtain ⟨hsome, hnone⟩ := h
  rw [items]
  cases hvalue : p.value? name t with
  | none =>
    rw [hnone hvalue]
    exact .nil
  | some u =>
    obtain ⟨hu, has⟩ := hsome u hvalue
    obtain ⟨rfl, rfl⟩ | ⟨ts, rfl, hitems⟩ := eq_of_seen_list hu has
    · exact .nil
    · exact List.forall₂_and_left _ _ |>.mpr
        ⟨Written.sound_array_iff.mp hu, mapM_eq_some_iff.mp hitems⟩

theorem Document.pipelines_of_seen {t : Written} {d : Document} (ht : t.Sound)
    (h : Document.decoder.seen t = some d) :
    List.Forall₂ (fun u p => u.Sound ∧ Pipeline.decoder.seen u = some p)
      (Part.document.items "pipelines" t) d.pipelines := by
  have hkeeps : Record.Keeps Part.document.record.fields "pipelines" Document.pipelines :=
    List.forall_mem_cons.mpr ⟨fun hname => absurd rfl hname, List.forall_mem_nil _⟩
  have hnull : t ≠ .null := by
    rintro rfl
    cases (Decoder.seen_record_null _).symm.trans h
  exact Part.forall₂_items (p := .document) (q := .pipeline)
    (Part.get_of_seen (p := .document) (i := 0) rfl rfl rfl (fun _ _ => rfl) hkeeps ht hnull h)

theorem Pipeline.nodes_of_seen {t : Written} {p : Pipeline} (ht : t.Sound)
    (h : Pipeline.decoder.seen t = some p) :
    List.Forall₂ (fun u n => u.Sound ∧ Node.decoder.seen u = some n)
      (Part.pipeline.items "nodes" t) p.nodes := by
  have hkeeps : Record.Keeps Part.pipeline.record.fields "nodes" Pipeline.nodes :=
    List.forall_mem_cons.mpr ⟨fun _ => Part.keeps_sets rfl fun _ _ => rfl,
      List.forall_mem_cons.mpr ⟨fun hname => absurd rfl hname, List.forall_mem_nil _⟩⟩
  have hnull : t ≠ .null := by
    rintro rfl
    cases (Decoder.seen_record_null _).symm.trans h
  exact Part.forall₂_items (p := .pipeline) (q := .node)
    (Part.get_of_seen (p := .pipeline) (i := 1) rfl rfl rfl (fun _ _ => rfl) hkeeps ht hnull h)

/-- The nodes of a text are read one by one for those of its document. -/
theorem Document.nodes_of_seen {t : Written} {d : Document} (ht : t.Sound)
    (h : Document.decoder.seen t = some d) :
    List.Forall₂ (fun u n => u.Sound ∧ Node.decoder.seen u = some n) t.nodes d.nodes :=
  List.rel_flatMap (pipelines_of_seen ht h) fun _ _ hp => Pipeline.nodes_of_seen hp.1 hp.2

/-! ## Memory -/

/-- Attributes that say nothing about memory have the default, and with null there is no limit. -/
theorem Attributes.memory_of_seen {t : Written} {a : Attributes} (ht : t.Sound)
    (h : Part.attributes.decoder.seen t = some a) :
    (Part.attributes.value? "memory" t = none → a.memory = some 4) ∧
      (Part.attributes.value? "memory" t = some .null → a.memory = none) := by
  by_cases hnull : t = .null
  · subst hnull
    rw [Part.seen_attributes_null] at h
    cases h
    exact ⟨fun _ => rfl, fun h => by cases h⟩
  have hkeeps : Record.Keeps Part.attributes.record.fields "memory" Attributes.memory := by
    repeat' first
      | exact List.forall_mem_nil _
      | refine List.forall_mem_cons.mpr ⟨?_, ?_⟩
      | exact fun hname => absurd rfl hname
      | exact fun _ => Part.keeps_sets rfl fun _ _ => rfl
  obtain ⟨hsome, hnone⟩ := Part.get_of_seen (p := .attributes) (i := 5) rfl rfl rfl
    (fun _ _ => rfl) hkeeps ht hnull h
  refine ⟨hnone, fun hvalue => ?_⟩
  have hseen := (hsome .null hvalue).2
  rw [Decoder.seen_optional_null] at hseen
  exact (Option.some.inj hseen).symm

/-- A node whose attributes say nothing about memory has the default, and with null there is no
limit. -/
theorem Node.memory_of_seen {t : Written} {n : Node} (ht : t.Sound)
    (h : Node.decoder.seen t = some n) :
    (t.memory? = none → n.attributes.memory = some 4) ∧
      (t.memory? = some .null → n.attributes.memory = none) := by
  have hkeeps : Record.Keeps Part.node.record.fields "app_data" Node.attributes := by
    repeat' first
      | exact List.forall_mem_nil _
      | refine List.forall_mem_cons.mpr ⟨?_, ?_⟩
      | exact fun hname => absurd rfl hname
      | exact fun _ => Part.keeps_sets rfl fun _ _ => rfl
  have hnull : t ≠ .null := by
    rintro rfl
    cases (Decoder.seen_record_null _).symm.trans h
  obtain ⟨hsome, hnone⟩ := Part.get_of_seen (p := .node) (i := 3) rfl rfl rfl
    (fun _ _ => rfl) hkeeps ht hnull h
  rw [Written.memory?]
  cases hvalue : Part.node.value? "app_data" t with
  | none =>
    rw [hnone hvalue]
    exact ⟨fun _ => rfl, fun h => by cases h⟩
  | some u =>
    obtain ⟨hu, hseen⟩ := hsome u hvalue
    exact Attributes.memory_of_seen hu hseen

end Pipewright
