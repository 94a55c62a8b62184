import Mathlib.Logic.Relation
import Pipewright.Proofs.Document.Identity
import Pipewright.Proofs.Document.Memory

/-!
# Changes that a document does not show

A text may be changed in many ways without changing the document that it is read for.  The members
of an object may stand in any order; a lenient key may be there with null or be missing; a key may
have its older spelling; and other keys may come and go with any value.  Missing, null and empty
attributes are alike.  All this holds for every part of a document at any depth.  Only the memory
tells null from nothing.

* `Alters`: one change of a tree.
* `Alters.alike`: the change of a tree does not show.
* `Document.Altered`: one change of a text.
* `Written.nodes`, `Written.memory?`: where a text says how much memory a node needs.
* `Document.parse_of_altered`: the main result.
-/

namespace Pipewright

open Json Json.Reader

/-! ## Changes -/

/-- One change of the tree that stands for a value of the shape. -/
inductive Alters : Shape → Written → Written → Prop where
  /-- The members are put in another order. -/
  | reorder {p : Part} {ms ms' : List (List Char × Written)} (h : ms.Perm ms') :
      Alters (.part p) (.object ms) (.object ms')
  /-- A lenient key is taken away with its null. -/
  | drop {p : Part} {k : Key} {cs : List Char} {before after : List (List Char × Written)}
      (hk : k ∈ p.keys) (hlenient : k.lenient = true) (hcs : k.names cs = true) :
      Alters (.part p) (.object (before ++ (cs, .null) :: after)) (.object (before ++ after))
  /-- A lenient key that is absent under both spellings is added with null. -/
  | add {p : Part} {k : Key} {cs : List Char} {before after : List (List Char × Written)}
      (hk : k ∈ p.keys) (hlenient : k.lenient = true) (hcs : k.names cs = true)
      (habsent : ∀ m ∈ before ++ after, k.names m.1 = false) :
      Alters (.part p) (.object (before ++ after)) (.object (before ++ (cs, .null) :: after))
  /-- A key is spelled in another way. -/
  | respell {p : Part} {k : Key} {cs cs' : List Char} {t : Written}
      {before after : List (List Char × Written)} (hk : k ∈ p.keys) (hcs : k.names cs = true)
      (hcs' : k.names cs' = true) :
      Alters (.part p) (.object (before ++ (cs, t) :: after))
        (.object (before ++ (cs', t) :: after))
  /-- A key that is none of the part's is added with any value. -/
  | addOther {p : Part} {cs : List Char} {key : String} {t : Written}
      {before after : List (List Char × Written)} (hcs : heard cs = some key)
      (hother : ∀ k ∈ p.keys, k.names cs = false) :
      Alters (.part p) (.object (before ++ after)) (.object (before ++ (cs, t) :: after))
  /-- A key that is none of the part's is taken away with its value. -/
  | dropOther {p : Part} {cs : List Char} {key : String} {t : Written}
      {before after : List (List Char × Written)} (hcs : heard cs = some key)
      (hother : ∀ k ∈ p.keys, k.names cs = false) :
      Alters (.part p) (.object (before ++ (cs, t) :: after)) (.object (before ++ after))
  /-- Null attributes become empty ones. -/
  | empty : Alters (.part .attributes) .null (.object [])
  /-- Empty attributes become null. -/
  | void : Alters (.part .attributes) (.object []) .null
  /-- The value of a key is changed. -/
  | member {p : Part} {k : Key} {cs : List Char} {t u : Written}
      {before after : List (List Char × Written)} (hk : k ∈ p.keys) (hcs : k.names cs = true)
      (h : Alters k.shape t u) :
      Alters (.part p) (.object (before ++ (cs, t) :: after)) (.object (before ++ (cs, u) :: after))
  /-- The value of a key is changed in an array that lists the values of the keys. -/
  | place {p : Part} {k : Key} {t u : Written} {before after : List Written}
      (hk : p.keys[before.length]? = some k) (h : Alters k.shape t u) :
      Alters (.part p) (.array (before ++ t :: after)) (.array (before ++ u :: after))
  /-- A part in a list is changed. -/
  | item {p : Part} {t u : Written} {before after : List Written} (h : Alters (.part p) t u) :
      Alters (.parts p) (.array (before ++ t :: after)) (.array (before ++ u :: after))

/-! ## Changes do not show -/

namespace Shape

variable {p : Part} {ms ms' : List (List Char × Written)}

/-- An object is like another one when all that its members make the others make too. -/
theorem alike_object (ht : (Written.object ms).Sound) (hu : (Written.object ms').Sound)
    (h : ∀ a, p.record.MadeFrom ms a → p.record.MadeFrom ms' a) :
    (part p).Alike (.object ms) (.object ms') :=
  fun a ha => (Part.seen_object hu).mpr (h a ((Part.seen_object ht).mp ha))

end Shape

/-- The items of a list may be replaced by others that are seen alike. -/
theorem mapM_replace {α β : Type} {f : α → Option β} {a b : α} {before after : List α}
    {cs : List β} (h : ∀ c, f a = some c → f b = some c)
    (hcs : (before ++ a :: after).mapM f = some cs) : (before ++ b :: after).mapM f = some cs := by
  rw [List.mapM_append, List.mapM_cons] at hcs ⊢
  obtain ⟨firsts, hfirsts, hcs⟩ := Option.bind_eq_some_iff.mp hcs
  obtain ⟨rests, hrests, hcs⟩ := Option.bind_eq_some_iff.mp hcs
  obtain ⟨c, hc, hrests⟩ := Option.bind_eq_some_iff.mp hrests
  exact Option.bind_eq_some_iff.mpr ⟨firsts, hfirsts, Option.bind_eq_some_iff.mpr
    ⟨rests, Option.bind_eq_some_iff.mpr ⟨c, h c hc, hrests⟩, hcs⟩⟩

theorem sound_of_sound_object {cs : List Char} {t : Written}
    {before after : List (List Char × Written)}
    (h : (Written.object (before ++ (cs, t) :: after)).Sound) : t.Sound :=
  (Written.sound_object_iff.mp h (cs, t) List.mem_append_cons_self).2

theorem sound_of_sound_array {t : Written} {before after : List Written}
    (h : (Written.array (before ++ t :: after)).Sound) : t.Sound :=
  Written.sound_array_iff.mp h t List.mem_append_cons_self

/-- What is read for a tree is read for the changed tree too. -/
theorem Alters.alike {s : Shape} {t u : Written} (h : Alters s t u) (ht : t.Sound) (hu : u.Sound) :
    s.Alike t u := by
  induction h with
  | @reorder p ms ms' hperm =>
    exact Shape.alike_object ht hu fun a ha => ha.perm p.independent hperm
  | @drop p k cs before after hk hlenient hcs =>
    obtain ⟨f, hf, hfits⟩ := Part.exists_field hk
    obtain ⟨hrequired, set, hset, hblank⟩ := hfits.null hlenient
    refine Shape.alike_object ht hu fun a ha => ?_
    exact ((Record.madeFrom_middle p.independent).mp ha).drop p.independent.names
      ((Part.names_iff hf hfits).mp hcs) hset hblank hrequired
  | @add p k cs before after hk hlenient hcs habsent =>
    obtain ⟨f, hf, hfits⟩ := Part.exists_field hk
    obtain ⟨-, set, hset, hblank⟩ := hfits.null hlenient
    refine Shape.alike_object ht hu fun a ha => (Record.madeFrom_middle p.independent).mpr ?_
    refine ha.add p.independent.names ((Part.names_iff hf hfits).mp hcs) hset hblank
      fun m hm hhears => ?_
    rw [← Part.names_iff hf hfits, habsent m hm] at hhears
    cases hhears
  | @respell p k cs cs' t before after hk hcs hcs' =>
    obtain ⟨f, hf, hfits⟩ := Part.exists_field hk
    refine Shape.alike_object ht hu fun a ha => (Record.madeFrom_middle p.independent).mpr ?_
    exact ((Record.madeFrom_middle p.independent).mp ha).replace
      ((Part.names_iff hf hfits).mp hcs) ((Part.names_iff hf hfits).mp hcs') fun _ h => h
  | @addOther p cs key t before after hcs hother =>
    refine Shape.alike_object ht hu fun a ha => (Record.madeFrom_middle p.independent).mpr ?_
    exact (Record.madeFrom_other (m := (cs, t)) (Part.hears_eq_none hcs hother)).mpr ha
  | @dropOther p cs key t before after hcs hother =>
    refine Shape.alike_object ht hu fun a ha => ?_
    exact (Record.madeFrom_other (m := (cs, t)) (Part.hears_eq_none hcs hother)).mp
      ((Record.madeFrom_middle p.independent).mp ha)
  | empty =>
    intro a ha
    rw [Part.seen_attributes_null] at ha
    rw [Part.seen_attributes_empty, ha]
  | void =>
    intro a ha
    rw [Part.seen_attributes_empty] at ha
    rw [Part.seen_attributes_null, ha]
  | @member p k cs t u before after hk hcs h ih =>
    obtain ⟨f, hf, hfits⟩ := Part.exists_field hk
    have halike := hfits.alike t u (ih (sound_of_sound_object ht) (sound_of_sound_object hu))
    have hkey := (Part.names_iff hf hfits).mp hcs
    refine Shape.alike_object ht hu fun a ha => (Record.madeFrom_middle p.independent).mpr ?_
    exact ((Record.madeFrom_middle p.independent).mp ha).replace hkey hkey halike
  | @place p k t u before after hk h ih =>
    obtain ⟨f, hf, hfits⟩ := exists_getElem?_of_forall₂ p.fieldsFit.flip hk
    intro a ha
    rw [Part.seen_array ht] at ha
    rw [Part.seen_array hu]
    have halike := hfits.alike t u (ih (sound_of_sound_array ht) (sound_of_sound_array hu))
    exact Record.inOrder_replace hf halike ha
  | @item p t u before after h ih =>
    intro as has
    rw [Part.seen_list ht] at has
    rw [Part.seen_list hu]
    exact mapM_replace (ih (sound_of_sound_array ht) (sound_of_sound_array hu)) has

namespace Document

/-! ## Texts -/

/-- One change of a text: a text of one tree, whatever its blanks, becomes a text of the changed
tree. -/
def Altered (source source' : String) : Prop :=
  ∃ t u, t.IsOf source ∧ u.IsOf source' ∧ Alters (.part .document) t u

/-- What is read for a text is read for the changed text too. -/
theorem Altered.parse_eq {source source' : String} (h : Altered source source') {d : Document}
    (hd : decoder.parse source = .ok d) : decoder.parse source' = .ok d := by
  obtain ⟨t, u, ht, hu, haltered⟩ := h
  have hsteady : decoder.Steady _ := Part.document.fieldsFit.steady
  rw [hsteady.parse_eq_ok_iff ht] at hd
  rw [hsteady.parse_eq_ok_iff hu]
  exact haltered.alike ht.sound hu.sound d hd

theorem parse_eq_ok_iff {source : String} {d : Document} :
    parse source = .ok d ↔ decoder.parse source = .ok d ∧ d.idFault? = none := by
  cases hread : decoder.parse source with
  | error e => simp [parse, hread]
  | ok d' =>
    rw [parse_of_decoded hread]
    cases hfault : d'.idFault? with
    | none =>
      simp only [Option.elim_none, Except.ok.injEq]
      exact ⟨fun h => ⟨h, h ▸ hfault⟩, fun h => h.1⟩
    | some fault =>
      simp only [Option.elim_some, reduceCtorEq, false_iff, Except.ok.injEq]
      rintro ⟨rfl, hnone⟩
      rw [hfault] at hnone
      cases hnone

/-- A text that is accepted has a tree.  However it is changed in these ways, the changed text is
accepted too and read for the same document.  A node that says nothing about its memory has four
gigabytes, and one that says null has no limit. -/
theorem parse_of_altered {source : String} {d : Document} (h : parse source = .ok d) :
    (∃ t : Written, t.IsOf source) ∧
      (∀ source', Relation.ReflTransGen Altered source source' → parse source' = .ok d) ∧
      ∀ t : Written, t.IsOf source → List.Forall₂
        (fun u n => (u.memory? = none → n.attributes.memory = some 4) ∧
          (u.memory? = some .null → n.attributes.memory = none)) t.nodes d.nodes := by
  obtain ⟨hread, hids⟩ := parse_eq_ok_iff.mp h
  have hsteady : decoder.Steady _ := Part.document.fieldsFit.steady
  refine ⟨hsteady.finds.exists_isOf hread, fun source' haltered => ?_, fun t ht => ?_⟩
  · refine parse_eq_ok_iff.mpr ⟨?_, hids⟩
    induction haltered with
    | refl => exact hread
    | tail _ hstep ih => exact hstep.parse_eq ih
  · rw [hsteady.parse_eq_ok_iff ht] at hread
    exact (nodes_of_seen ht.sound hread).imp fun u n hn => Node.memory_of_seen hn.1 hn.2

/-- The tree of a document with one pipeline, which has one node with the members. -/
def treeOfNode (members : List (List Char × Written)) : Written :=
  .object [("pipelines".toList, .array [.object [("nodes".toList, .array [.object members])]])]

/-- The text of the node stands between brackets, behind two keys. -/
theorem treeOfNode_isOf {members : List (List Char × Written)} {s : List Char} {source : String}
    (h : (Written.object members).Spells s)
    (hsource : source.toList = "\x7b\"pipelines\":[\x7b\"nodes\":[".toList ++
      (s ++ "]\x7d]\x7d".toList)) : (treeOfNode members).IsOf source := by
  have hjoined : ∀ s : List Char, Joined true [s] s := fun s => by
    simpa using Joined.cons (.first blanks_nil) (.nil blanks_nil)
  have hlist : ∀ {t : Written} {s : List Char}, t.Spells s →
      (Written.array [t]).Spells ('[' :: (s ++ [']'])) := by
    intro t s ht
    have hitems : ∀ item ∈ [(t, s)], item.1.Spells item.2 := List.forall_mem_singleton.mpr ht
    exact .array hitems (hjoined s)
  have hmember : ∀ {key s : List Char} {t : Written}, StringText key → t.Spells s →
      (Written.object [(key, t)]).Spells
        ('\x7b' :: ('"' :: (key ++ '"' :: ':' :: s) ++ ['\x7d'])) := by
    intro key s t hkey ht
    let member : MemberSpelling := ⟨key, t, [], [], s⟩
    have hformed : member.Formed := ⟨hkey, blanks_nil, blanks_nil⟩
    exact .object (List.forall_mem_singleton.mpr ht) (List.forall_mem_singleton.mpr hformed)
      (hjoined member.spelling)
  have hnodes : StringText "nodes".toList := stringText_of_plain (by simp)
  have hpipelines : StringText "pipelines".toList := stringText_of_plain (by simp)
  have hspells := hmember hpipelines (hlist (hmember hnodes (hlist h)))
  refine ⟨[], _, [], ?_, blanks_nil, hspells, blanks_nil⟩
  rw [hsource]
  simp

/-- A text of a document with a node that has nothing but an id. -/
def bareSource : String := "\x7b\"pipelines\":[\x7b\"nodes\":[\x7b\"id\":\"a\"\x7d]\x7d]\x7d"

/-- The text with attributes that are null. -/
def voidSource : String :=
  "\x7b\"pipelines\":[\x7b\"nodes\":[\x7b\"app_data\":null, \"id\":\"a\"\x7d]\x7d]\x7d"

theorem parse_voidSource : parse bareSource = .ok ⟨[⟨"", [{ id := "a" }]⟩]⟩ ∧
    parse voidSource = .ok ⟨[⟨"", [{ id := "a" }]⟩]⟩ := by
  have hread : parse bareSource = .ok ⟨[⟨"", [{ id := "a" }]⟩]⟩ :=
    eq_ok_of_toOption (by decide +kernel)
  let id : MemberSpelling := ⟨"id".toList, .string ['a'], [], [], ['"', 'a', '"']⟩
  let attributes : MemberSpelling := ⟨"app_data".toList, .null, [], [], ['n', 'u', 'l', 'l']⟩
  have hid : id.value.Spells id.text := .string (stringText_of_plain (by simp))
  have hidFormed : id.Formed := ⟨stringText_of_plain (by simp [id]), blanks_nil, blanks_nil⟩
  have hattributes : attributes.Formed :=
    ⟨stringText_of_plain (by simp [attributes]), blanks_nil, blanks_nil⟩
  have hspace : Blanks [' '] := List.forall_mem_singleton.mpr (by decide)
  have hbare : (treeOfNode [id.member]).IsOf bareSource :=
    treeOfNode_isOf (.object (List.forall_mem_singleton.mpr hid)
      (List.forall_mem_singleton.mpr hidFormed) (.cons (.first blanks_nil) (.nil blanks_nil))) rfl
  have hvoid : (treeOfNode [attributes.member, id.member]).IsOf voidSource :=
    treeOfNode_isOf (.object (List.forall_mem_cons.mpr ⟨.null, List.forall_mem_singleton.mpr hid⟩)
      (List.forall_mem_cons.mpr ⟨hattributes, List.forall_mem_singleton.mpr hidFormed⟩)
      (.cons (.first blanks_nil) (.cons (.next blanks_nil hspace) (.nil blanks_nil)))) rfl
  have hnode : Alters (.part .node) (.object [id.member])
      (.object [attributes.member, id.member]) :=
    @Alters.add .node Part.node.keys[3] _ [] [id.member] (List.getElem_mem _) rfl
      (by decide +kernel) (by decide +kernel)
  have haltered : Altered bareSource voidSource :=
    ⟨_, _, hbare, hvoid, @Alters.member .document Part.document.keys[0] _ _ _ [] []
      List.mem_cons_self (by decide +kernel) (@Alters.item .pipeline _ _ [] []
        (@Alters.member .pipeline Part.pipeline.keys[1] _ _ _ [] []
          (List.mem_cons_of_mem _ List.mem_cons_self) (by decide +kernel)
          (@Alters.item .node _ _ [] [] hnode)))⟩
  exact ⟨hread, (parse_of_altered hread).2.1 _ (.single haltered)⟩

end Document

end Pipewright
