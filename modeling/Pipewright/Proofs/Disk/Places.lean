import Pipewright.Proofs.Disk.Kept

/-!
# Places of paths taken from a directory

The place of a path can be read off its names, so that of a path taken from a directory is below
that of the directory, whatever the disk holds.

* `Disk.Leads.eq_placeOf`: where a path leads to a directory.
* `Disk.placeOf_join`: a path taken from a directory.
* `Path.components_join`, `Path.upTo_join`: the directories on the way to a path taken from a
  directory.
-/

namespace Pipewright

namespace Disk

variable {d : Disk} {directory p : Path} {name : String} {place : Location}

/-- A directory that a path leads to is at the place of the path. -/
theorem Leads.eq_placeOf (h : d.Leads p place) : place = d.placeOf p := by
  obtain ⟨cs, hcs⟩ := h
  exact place_of_lead hcs

/-- The place of a path taken from a directory is below that of the directory. -/
theorem placeOf_join (h : Path.Plain name) :
    d.placeOf (directory.join name) = d.placeOf directory ++ [name] := by
  rw [placeOf, way_join h.noSlash h.notEmpty, List.foldl_append, List.foldl_cons, List.foldl_nil,
    nextPlace, if_neg h.notStay, if_neg h.notBack]
  rfl

theorem prefix_placeOf_join (h : Path.Plain name) (directory : Path) :
    d.placeOf directory <+: d.placeOf (directory.join name) :=
  ⟨[name], (placeOf_join h).symm⟩

end Disk

/-! ## The directories on the way -/

namespace Path

variable {directory p : Path} {name : String}

/-- The components of a path taken from a directory are those of the directory, and the last one. -/
theorem components_join (h : Plain name) :
    (join directory name).components = directory.components ++ [name] := by
  have hnames : (join directory name).names = directory.names ++ [name] :=
    names_join h.noSlash h.notEmpty
  have habsolute : (join directory name).isAbsolute = directory.isAbsolute :=
    isAbsolute_join h.noSlash
  rw [components, hnames, components, habsolute]
  rcases directory.names with _ | ⟨n, rest⟩
  · simp [h.notStay]
  · simp [h.notStay]

/-- On the way to a path taken from a directory are the directories on the way to that directory. -/
theorem upTo_join (h : Plain name) {n : Nat} (hn : n ≤ directory.components.length) :
    (join directory name).upTo n = directory.upTo n := by
  rw [upTo, upTo, isAbsolute_join h.noSlash, components_join h, List.take_append_of_le_length hn]

theorem mem_names {n : String} (h : n ∈ p.names) : '/' ∉ n.toList ∧ n ≠ "" := by
  rw [names, List.mem_filter] at h
  exact ⟨Text.notMem_of_mem_pieces h.1, by simpa using h.2⟩

theorem mem_names_of_mem_components {n : String} (h : n ∈ p.components) : n ∈ p.names := by
  rw [components] at h
  split at h
  · cases h
  · next hnames =>
    rw [hnames]
    rcases List.mem_append.mp h with h | h
    · split at h
      · cases h
      · exact List.mem_cons.mpr (.inl (List.mem_singleton.mp h))
    · exact List.mem_cons_of_mem _ (List.mem_filter.mp h).1

/-- The names along a path that has been put together are the components. -/
theorem names_ofComponents {cs : List String} (h : ∀ c ∈ cs, '/' ∉ c.toList ∧ c ≠ "")
    (absolute : Bool) : (ofComponents absolute cs).names = cs := by
  have hrelative : names (String.intercalate (String.singleton '/') cs) = cs := by
    rcases cs with _ | ⟨c, cs⟩
    · rfl
    · rw [names, Text.pieces_intercalate (List.cons_ne_nil c cs) fun c hc => (h c hc).1,
        List.filter_eq_self]
      intro c hc
      simpa using (h c hc).2
  rw [ofComponents]
  split
  · have hsplit := Text.pieces_append_singleton_append '/' ""
      (String.intercalate (String.singleton '/') cs)
    rw [String.empty_append] at hsplit
    show ((Text.pieces '/'
      (String.singleton '/' ++ String.intercalate (String.singleton '/') cs)).filter _) = cs
    rw [hsplit, List.filter_append]
    exact hrelative
  · rw [String.empty_append]
    exact hrelative

theorem isAbsolute_ofComponents {cs : List String} (h : ∀ c ∈ cs, '/' ∉ c.toList ∧ c ≠ "")
    (absolute : Bool) : (ofComponents absolute cs).isAbsolute = absolute := by
  cases absolute with
  | true => simp [ofComponents, isAbsolute]
  | false =>
    rcases cs with _ | ⟨c, cs⟩
    · rfl
    · obtain ⟨hslash, hne⟩ := h c List.mem_cons_self
      have hc : c.toList ≠ [] := fun hnil => hne (String.toList_injective hnil)
      have htext : (ofComponents false (c :: cs)).toList.head? = c.toList.head? := by
        cases cs with
        | nil => simp [ofComponents]
        | cons c' cs => simp [ofComponents, List.head?_append_of_ne_nil _ hc]
      rw [isAbsolute, htext]
      exact isAbsolute_of_noSlash hslash

theorem names_upTo (p : Path) (n : Nat) : (p.upTo n).names = p.components.take n :=
  names_ofComponents (fun _ hc => mem_names (mem_names_of_mem_components (List.mem_of_mem_take hc)))
    _

theorem isAbsolute_upTo (p : Path) (n : Nat) : (p.upTo n).isAbsolute = p.isAbsolute :=
  isAbsolute_ofComponents
    (fun _ hc => mem_names (mem_names_of_mem_components (List.mem_of_mem_take hc))) _

/-- The components lead where the names lead. -/
theorem foldl_components (p : Path) (place : Location) :
    p.components.foldl Disk.nextPlace place = p.names.foldl Disk.nextPlace place := by
  have hfilter : ∀ (ns : List String) (place : Location),
      (ns.filter fun m => m ≠ ".").foldl Disk.nextPlace place = ns.foldl Disk.nextPlace place := by
    intro ns
    induction ns with
    | nil => exact fun _ => rfl
    | cons n ns ih =>
      intro place
      by_cases hn : n = "."
      · subst hn
        exact ih place
      · rw [List.filter_cons_of_pos (by simpa using hn)]
        exact ih _
  rw [components]
  rcases p.names with _ | ⟨n, rest⟩
  · rfl
  · dsimp only
    rw [List.foldl_append, hfilter]
    split
    · next hn =>
      obtain rfl : n = "." := of_decide_eq_true (Bool.and_eq_true_iff.mp hn).1
      rfl
    · rfl

end Path

namespace Disk

variable {d : Disk} {name : String}

/-- The place where a path starts. -/
def startOf (d : Disk) (p : Path) : Location :=
  (if p.isAbsolute then [] else d.workingDirectory).foldl nextPlace []

/-- The components of a path lead from its start to its place. -/
theorem placeOf_eq (p : Path) : d.placeOf p = p.components.foldl nextPlace (d.startOf p) := by
  rw [placeOf, way, List.foldl_append, ← Path.foldl_components]
  rfl

/-- The first components of a path lead to the directories on the way to it. -/
theorem placeOf_upTo (p : Path) (n : Nat) :
    d.placeOf (p.upTo n) = (p.components.take n).foldl nextPlace (d.startOf p) := by
  rw [placeOf, way, List.foldl_append, Path.names_upTo, Path.isAbsolute_upTo]
  rfl

/-- All components of a path lead to its place. -/
theorem placeOf_upTo_length (p : Path) : d.placeOf (p.upTo p.components.length) = d.placeOf p := by
  rw [placeOf_upTo, List.take_length, placeOf_eq]

/-- On the way to a path taken from a directory are the directory and what is on the way to it. -/
theorem above_join (hname : Path.Plain name) {p a : Path} (ha : a ∈ (p.join name).above) :
    d.placeOf a = d.placeOf p ∨ a ∈ p.above := by
  obtain ⟨n, hpos, hn, rfl⟩ := ha
  rw [Path.components_join hname, List.length_append, List.length_singleton,
    Nat.lt_succ_iff] at hn
  rw [Path.upTo_join hname hn]
  rcases Nat.lt_or_eq_of_le hn with hlt | rfl
  · exact .inr ⟨n, hpos, hlt, rfl⟩
  · exact .inl (placeOf_upTo_length p)

end Disk

end Pipewright
