import GpuProfile.Proofs.ExactMerge

namespace GpuProfile

theorem compare_parts_eq_lt_iff {a b : List UInt64} : compare a b = .lt ↔ a < b := by
  induction a generalizing b with
  | nil => cases b <;> simp
  | cons x a ih =>
    cases b with
    | nil => simp
    | cons y b =>
      rw [List.compare_cons_cons, Ordering.then_eq_lt, ih, List.cons_lt_cons_iff, Std.compare_eq_lt,
        Std.LawfulEqCmp.compare_eq_iff_eq]

theorem not_lt_of_prefix {a b : List UInt64} (h : a <+: b) : ¬b < a := by
  induction a generalizing b with
  | nil => exact List.not_lt_nil b
  | cons x a ih =>
    obtain ⟨c, rfl⟩ := h
    rw [List.cons_append, List.cons_lt_cons_iff]
    rintro (hlt | ⟨-, hlt⟩)
    · exact UInt64.lt_irrefl x hlt
    · exact ih (List.prefix_append a c) hlt

theorem prefix_of_between {a b c : List UInt64} (hab : a < b) (hbc : b < c) (h : a <+: c) : a <+: b := by
  induction a generalizing b c with
  | nil => exact List.nil_prefix
  | cons x a ih =>
    obtain ⟨d, rfl⟩ := h
    cases b with
    | nil => exact absurd hab (List.not_lt_nil _)
    | cons y b =>
      rw [List.cons_append, List.cons_lt_cons_iff] at hbc
      rw [List.cons_lt_cons_iff] at hab
      rw [List.cons_prefix_cons]
      rcases hab with hxy | ⟨rfl, hab⟩
      · rcases hbc with hyx | ⟨rfl, -⟩
        · exact absurd (UInt64.lt_trans hxy hyx) (UInt64.lt_irrefl x)
        · exact absurd hxy (UInt64.lt_irrefl _)
      · rcases hbc with hxx | ⟨-, hbc⟩
        · exact absurd hxx (UInt64.lt_irrefl x)
        · exact ⟨rfl, ih hab hbc (List.prefix_append a d)⟩

namespace CommandIndex

/-- Each command is followed by just what lies under it, before anything else. -/
def Preorder (commands : List CommandIndex) : Prop :=
  ∀ a ∈ commands, ∃ before below after, commands = before ++ a :: below ++ after ∧
    (∀ b ∈ below, a.IsAbove b) ∧ ∀ b ∈ before ++ after, ¬a.IsAbove b

theorem preorder_of_ascending {commands : List CommandIndex} (h : (commands.map (·.parts)).Pairwise (· < ·)) :
    Preorder commands := by
  intro a ha
  obtain ⟨before, rest, rfl⟩ := List.append_of_mem ha
  rw [List.pairwise_map, List.pairwise_append] at h
  obtain ⟨-, hrest, hbefore⟩ := h
  obtain ⟨hafter, hascend⟩ := List.pairwise_cons.mp hrest
  refine ⟨before, rest.takeWhile (a.IsAbove ·), rest.dropWhile (a.IsAbove ·), ?_, ?_, ?_⟩
  · rw [List.append_assoc, List.cons_append, List.takeWhile_append_dropWhile]
  · intro b hb
    simpa using List.mem_takeWhile_imp hb
  · intro b hb habove
    rcases List.mem_append.mp hb with hb | hb
    · exact not_lt_of_prefix habove.2 (hbefore b hb a List.mem_cons_self)
    -- Between the command and `b` stands the first that does not lie under it.
    · have hne : rest.dropWhile (a.IsAbove ·) ≠ [] := List.ne_nil_of_mem hb
      have hfirst := List.head_dropWhile_not (a.IsAbove ·) hne
      have hsuffix := List.dropWhile_suffix (l := rest) (a.IsAbove ·)
      obtain ⟨c, more, hdrop⟩ := List.exists_cons_of_ne_nil hne
      simp only [hdrop, List.head_cons, decide_eq_false_iff_not] at hfirst
      rw [hdrop] at hb hsuffix
      rcases List.mem_cons.mp hb with rfl | hb
      · exact hfirst habove
      · apply hfirst
        refine ⟨habove.1, prefix_of_between ?_ ?_ habove.2⟩
        · exact hafter c (hsuffix.subset List.mem_cons_self)
        · exact (List.pairwise_cons.mp (hascend.sublist hsuffix.sublist)).1 b hb

theorem isAbove_of_child {parent a : CommandIndex} {part : UInt64} (hne : parent.parts ≠ [])
    (h : (parent.child part).IsAbove a) : parent.IsAbove a :=
  ⟨hne, (List.prefix_append _ _).trans h.2⟩

end CommandIndex

variable {α : Type}

theorem entries_eq_of_mem_iff {es es' : List (Entry α)} (h : (es.map (·.command.parts)).Pairwise (· < ·))
    (h' : (es'.map (·.command.parts)).Pairwise (· < ·)) (hmem : ∀ e, e ∈ es ↔ e ∈ es') : es = es' := by
  let before (e e' : Entry α) : Prop := e.command.parts < e'.command.parts
  have : Std.Irrefl before := ⟨fun e => not_lt_of_prefix (List.prefix_refl _)⟩
  have : Std.Antisymm before := ⟨fun e e' hlt hlt' => absurd hlt' (List.lt_asymm hlt)⟩
  exact List.Pairwise.eq_of_mem_iff (r := before) (List.pairwise_map.mp h) (List.pairwise_map.mp h') hmem

namespace Leaves

theorem isSome_foldl_alter (nodes : Nodes) (group : GroupId) (xs : List CommandIndex) (command : CommandIndex) :
    ((xs.foldl (fun nodes c => nodes.alter c fun found => found.getD [] ++ [group]) nodes).get? command).isSome ↔
      (nodes.get? command).isSome ∨ command ∈ xs := by
  induction xs generalizing nodes with
  | nil => simp
  | cons x xs ih =>
    rw [List.foldl_cons, ih, SortedMap.get?_alter]
    by_cases he : command = x <;> simp [he]

theorem isSome_nodes (leaves : Leaves α) (command : CommandIndex) :
    (leaves.nodes.get? command).isSome ↔ ∃ p ∈ leaves.toList, command.IsAbove p.2.command := by
  have hfold : ∀ (pairs : List (GroupId × Leaf α)) (nodes : Nodes),
      ((pairs.foldl (fun nodes p => p.2.command.prefixes.foldl
        (fun nodes c => nodes.alter c fun found => found.getD [] ++ [p.1]) nodes) nodes).get? command).isSome ↔
        (nodes.get? command).isSome ∨ ∃ p ∈ pairs, command.IsAbove p.2.command := by
    intro pairs
    induction pairs with
    | nil => simp
    | cons p rest ih =>
      intro nodes
      rw [List.foldl_cons, ih, isSome_foldl_alter, CommandIndex.mem_prefixes, or_assoc, List.exists_mem_cons_iff]
  exact (hfold leaves.toList .empty).trans (by simp)

variable [Quantity α]

theorem mem_merge_commands {leaves : Leaves α} {metrics : List Metric} {command : CommandIndex} :
    command ∈ (leaves.merge metrics).map (·.command) ↔ ∃ p ∈ leaves.toList, command.IsAbove p.2.command := by
  rw [← isSome_nodes, ← SortedMap.mem_keys_iff, merge, List.map_map]
  rfl

theorem merge_commands_ascending (leaves : Leaves α) (metrics : List Metric) :
    ((leaves.merge metrics).map (·.command.parts)).Pairwise (· < ·) := by
  rw [merge, List.map_map, List.pairwise_map]
  exact leaves.nodes.ascending.imp fun hlt => compare_parts_eq_lt_iff.mp hlt

theorem mergeValues_keys {metrics : List Metric} (h : (metrics.map (·.id)).Pairwise (compare · · = .lt))
    (members : List (Leaf α)) :
    (mergeValues metrics members).keys = (metrics.filter (·.operator.isSupported)).map (·.id) := by
  rw [mergeValues_eq_ofList, SortedMap.keys, SortedMap.toList_ofList, List.map_map]
  · rfl
  · exact List.pairwise_map.mpr ((List.pairwise_map.mp h).sublist List.filter_sublist)

end Leaves

namespace Profile

variable [Quantity α] {t : Timeline} {cs : List (Counter α)} {p : Profile α}

theorem mem_commands {leaves : Leaves α} (h : leavesOf t cs = .ok leaves) (hn : (t.groups.map (·.id)).Nodup)
    {metrics : List Metric} {command : CommandIndex} :
    command ∈ (leaves.merge metrics).map (·.command) ↔ ∃ g ∈ t.groups, command.IsAbove g.command := by
  rw [Leaves.mem_merge_commands]
  constructor
  · rintro ⟨⟨id, leaf⟩, hp, habove⟩
    refine ⟨⟨id, leaf.command⟩, (leavesOf_command? h hn).mp ?_, habove⟩
    rw [Leaves.command?, leaves.mem_toList_iff.mp hp]
    rfl
  · rintro ⟨g, hg, habove⟩
    obtain ⟨leaf, hleaf, hc⟩ := Option.map_eq_some_iff.mp ((leavesOf_command? h hn).mpr hg)
    exact ⟨(g.id, leaf), leaves.mem_toList_iff.mpr hleaf, by rwa [hc]⟩

theorem entries_in_preorder (h : compute t cs = .ok p) (hsize : cs.length ≤ 2 ^ 31 - 2) :
    (p.entries.map (·.command.parts)).Pairwise (· < ·) ∧
    (∀ command, command ∈ p.entries.map (·.command) ↔ ∃ g ∈ t.groups, command.IsAbove g.command) ∧
    (∀ e ∈ p.entries, ∀ (parent : CommandIndex) part, parent.parts ≠ [] → e.command = parent.child part →
      ∃ e' ∈ p.entries, e'.command = parent) ∧
    CommandIndex.Preorder (p.entries.map (·.command)) ∧
    p.metrics.map (·.id.toInt) = (List.range (cs.length + 2)).map Int.ofNat ∧
    ∀ e ∈ p.entries, e.values.keys = (p.metrics.filter (·.operator.isSupported)).map (·.id) := by
  obtain ⟨hcheck, leaves, hleaves, rfl⟩ := compute_eq_ok_iff.mp h
  have hn := (checkTraces_eq_ok_iff.mp hcheck).1
  have hascend := leaves.merge_commands_ascending (metricsOf cs)
  refine ⟨hascend, fun command => mem_commands hleaves hn, ?_, ?_, metricsOf_ids_toInt (by omega), ?_⟩
  · intro e he parent part hne hchild
    obtain ⟨g, hg, habove⟩ := (mem_commands hleaves hn).mp (List.mem_map_of_mem he)
    rw [hchild] at habove
    have hparent : parent ∈ (leaves.merge (metricsOf cs)).map (·.command) :=
      (mem_commands hleaves hn).mpr ⟨g, hg, CommandIndex.isAbove_of_child hne habove⟩
    exact List.mem_map.mp hparent
  · apply CommandIndex.preorder_of_ascending
    rwa [List.map_map]
  · intro e he
    rw [Leaves.values_of_mem_merge he]
    exact Leaves.mergeValues_keys (metricsOf_ids_ascending (by omega)) _

theorem sketch_in_preorder : ∃ p, compute Sketch.timeline [Sketch.occupancy, Sketch.reads] = .ok p ∧
    p.entries.length = 5 ∧ CommandIndex.Preorder (p.entries.map (·.command)) ∧
    p.metrics.map (·.id.toInt) = [0, 1, 2, 3] ∧
    ∀ e ∈ p.entries, e.values.keys = (p.metrics.filter (·.operator.isSupported)).map (·.id) := by
  obtain ⟨p, hp, hlength⟩ := Sketch.computes
  obtain ⟨-, -, -, hpreorder, hids, hkeys⟩ := entries_in_preorder hp (by decide)
  exact ⟨p, hp, hlength, hpreorder, hids, hkeys⟩

end Profile

end GpuProfile
