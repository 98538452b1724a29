import GpuProfile.Proofs.LeafValues
import GpuProfile.Profile.Compute

namespace GpuProfile

namespace CommandIndex

def IsAbove (a b : CommandIndex) : Prop := a.parts ≠ [] ∧ a.parts <+: b.parts

instance (a b : CommandIndex) : Decidable (a.IsAbove b) := inferInstanceAs (Decidable (_ ∧ _))

theorem mem_heads {β : Type} {p xs : List β} : p ∈ heads xs ↔ p ≠ [] ∧ p <+: xs := by
  induction xs generalizing p with
  | nil => simp [heads]
  | cons x xs ih =>
    cases p with
    | nil => simp [heads]
    | cons y p =>
      rw [heads, List.mem_cons, List.mem_map, List.cons_prefix_cons]
      constructor
      · rintro (he | ⟨q, hq, he⟩)
        · cases he
          exact ⟨by simp, rfl, List.nil_prefix⟩
        · cases he
          exact ⟨by simp, rfl, (ih.mp hq).2⟩
      · rintro ⟨-, rfl, hp⟩
        by_cases hnil : p = []
        · exact .inl (by rw [hnil])
        · exact .inr ⟨p, ih.mpr ⟨hnil, hp⟩, rfl⟩

theorem nodup_heads {β : Type} (xs : List β) : (heads xs).Nodup := by
  induction xs with
  | nil => exact List.nodup_nil
  | cons x xs ih =>
    rw [heads, List.nodup_cons]
    constructor
    · intro hm
      obtain ⟨q, hq, he⟩ := List.mem_map.mp hm
      exact (mem_heads.mp hq).1 (List.cons_injective he)
    · exact ih.map List.cons_injective

theorem mem_prefixes {a b : CommandIndex} : a ∈ b.prefixes ↔ a.IsAbove b := by
  cases a
  simp [prefixes, mem_heads, IsAbove]

theorem nodup_prefixes (index : CommandIndex) : index.prefixes.Nodup := by
  rw [prefixes]
  apply List.Nodup.map
  · intro p q he
    cases he
    rfl
  · exact List.nodup_reverse.mpr (nodup_heads _)

end CommandIndex

variable {α : Type}

namespace Leaves

def under (leaves : Leaves α) (command : CommandIndex) : List (GroupId × Leaf α) :=
  leaves.toList.filter fun p => command.IsAbove p.2.command

theorem getD_foldl_alter (nodes : Nodes) (group : GroupId) {xs : List CommandIndex} (hx : xs.Nodup)
    (command : CommandIndex) :
    ((xs.foldl (fun nodes c => nodes.alter c fun found => found.getD [] ++ [group]) nodes).get? command).getD [] =
      (nodes.get? command).getD [] ++ if command ∈ xs then [group] else [] := by
  induction xs generalizing nodes with
  | nil => simp
  | cons x xs ih =>
    obtain ⟨hnot, hxs⟩ := List.nodup_cons.mp hx
    rw [List.foldl_cons, ih _ hxs, SortedMap.get?_alter]
    by_cases he : command = x
    · subst he
      simp [hnot]
    · simp [he]

theorem getD_nodes (leaves : Leaves α) (command : CommandIndex) :
    (leaves.nodes.get? command).getD [] = (leaves.under command).map (·.1) := by
  have hfold : ∀ (pairs : List (GroupId × Leaf α)) (nodes : Nodes),
      ((pairs.foldl (fun nodes p => p.2.command.prefixes.foldl
        (fun nodes c => nodes.alter c fun found => found.getD [] ++ [p.1]) nodes) nodes).get? command).getD [] =
        (nodes.get? command).getD [] ++ (pairs.filter fun p => command.IsAbove p.2.command).map (·.1) := by
    intro pairs
    induction pairs with
    | nil => simp
    | cons p rest ih =>
      intro nodes
      rw [List.foldl_cons, ih, getD_foldl_alter _ _ (CommandIndex.nodup_prefixes _)]
      by_cases ha : command.IsAbove p.2.command
      · simp [ha, CommandIndex.mem_prefixes]
      · simp [ha, CommandIndex.mem_prefixes]
  exact hfold leaves.toList .empty

theorem filterMap_get?_under (leaves : Leaves α) (command : CommandIndex) :
    ((leaves.under command).map (·.1)).filterMap leaves.get? = (leaves.under command).map (·.2) := by
  have hget : ∀ p ∈ leaves.under command, leaves.get? p.1 = some p.2 := fun p hp =>
    leaves.mem_toList_iff.mp (List.mem_filter.mp hp).1
  rw [List.filterMap_map, ← List.filterMap_eq_map]
  apply List.filterMap_congr
  intro p hp
  exact hget p hp

variable [Quantity α]

theorem values_of_mem_merge {leaves : Leaves α} {metrics : List Metric} {e : Entry α}
    (h : e ∈ leaves.merge metrics) :
    e.values = mergeValues metrics ((leaves.under e.command).map (·.2)) := by
  obtain ⟨⟨command, groups⟩, hm, rfl⟩ := List.mem_map.mp h
  have hgroups : groups = (leaves.under command).map (·.1) := by
    rw [← getD_nodes, leaves.nodes.mem_toList_iff.mp hm]
    rfl
  simp only [hgroups, filterMap_get?_under]

theorem nodup_merge_commands (leaves : Leaves α) (metrics : List Metric) :
    ((leaves.merge metrics).map (·.command)).Nodup := by
  rw [merge, List.map_map]
  exact leaves.nodes.nodup_keys

theorem mergeValues_eq_ofList (metrics : List Metric) (members : List (Leaf α)) :
    mergeValues metrics members = .ofList ((metrics.filter (·.operator.isSupported)).map fun metric =>
      (metric.id, (mergeMetric metric members).getD .unknown)) := by
  rw [SortedMap.ofList, List.foldl_map, List.foldl_filter]
  rfl

theorem get?_mergeValues {metrics : List Metric} (hn : (metrics.map (·.id)).Nodup) (members : List (Leaf α))
    {id : MetricId} {value : Perf α} : (mergeValues metrics members).get? id = some value ↔
      ∃ metric ∈ metrics, metric.operator.isSupported ∧ metric.id = id ∧
        (mergeMetric metric members).getD .unknown = value := by
  rw [mergeValues_eq_ofList, SortedMap.get?_ofList]
  · simp [and_assoc]
  · rw [List.map_map]
    exact hn.sublist (List.filter_sublist.map _)

end Leaves

end GpuProfile
