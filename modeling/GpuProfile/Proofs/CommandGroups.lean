import GpuProfile.Proofs.EntryOrder

namespace GpuProfile

namespace Leaves

variable {α : Type} (leaves : Leaves α)

theorem mem_ids_under {command : CommandIndex} {id : GroupId} :
    id ∈ (leaves.under command).map (·.1) ↔ ∃ leaf, leaves.get? id = some leaf ∧ command.IsAbove leaf.command := by
  simp only [under, List.mem_map, List.mem_filter, decide_eq_true_eq, Prod.exists]
  constructor
  · rintro ⟨_, leaf, ⟨hmem, habove⟩, rfl⟩
    exact ⟨leaf, leaves.mem_toList_iff.mp hmem, habove⟩
  · rintro ⟨leaf, hget, habove⟩
    exact ⟨id, leaf, ⟨leaves.mem_toList_iff.mpr hget, habove⟩, rfl⟩

theorem ids_under_ascending (command : CommandIndex) : ((leaves.under command).map (·.1)).Pairwise (· < ·) := by
  have hall : (leaves.toList.map (·.1)).Pairwise (· < ·) :=
    List.pairwise_map.mpr (leaves.ascending.imp fun hlt => Std.compare_eq_lt.mp hlt)
  exact hall.sublist (List.filter_sublist.map _)

theorem get?_nodes_eq_some_iff {command : CommandIndex} {groups : List GroupId} :
    leaves.nodes.get? command = some groups ↔
      (∃ id leaf, leaves.get? id = some leaf ∧ command.IsAbove leaf.command) ∧
        groups = (leaves.under command).map (·.1) := by
  have hsome : (leaves.nodes.get? command).isSome ↔
      ∃ id leaf, leaves.get? id = some leaf ∧ command.IsAbove leaf.command := by
    simp only [isSome_nodes, Prod.exists, SortedMap.mem_toList_iff]
  rw [← hsome, ← getD_nodes]
  cases leaves.nodes.get? command with
  | none => simp
  | some found => simp [eq_comm]

theorem mem_values_nodes {id : GroupId} :
    id ∈ leaves.nodes.values.flatten ↔ ∃ leaf, leaves.get? id = some leaf ∧ leaf.command.parts ≠ [] := by
  simp only [List.mem_flatten, SortedMap.mem_values_iff, get?_nodes_eq_some_iff]
  constructor
  · rintro ⟨_, ⟨command, -, rfl⟩, hid⟩
    obtain ⟨leaf, hleaf, hne, hprefix⟩ := leaves.mem_ids_under.mp hid
    exact ⟨leaf, hleaf, fun hnil => hne (List.prefix_nil.mp (hnil ▸ hprefix))⟩
  · rintro ⟨leaf, hleaf, hne⟩
    have habove : leaf.command.IsAbove leaf.command := ⟨hne, List.prefix_refl _⟩
    exact ⟨_, ⟨leaf.command, ⟨id, leaf, hleaf, habove⟩, rfl⟩, leaves.mem_ids_under.mpr ⟨leaf, hleaf, habove⟩⟩

theorem nodes_list_groups (command : CommandIndex) (groups : List GroupId) :
    (leaves.nodes.get? command = some groups ↔
      (∃ id leaf, leaves.get? id = some leaf ∧ command.IsAbove leaf.command) ∧ groups.Pairwise (· < ·) ∧
        ∀ id, id ∈ groups ↔ ∃ leaf, leaves.get? id = some leaf ∧ command.IsAbove leaf.command) ∧
    ∀ id, id ∈ leaves.nodes.values.flatten ↔ ∃ leaf, leaves.get? id = some leaf ∧ leaf.command.parts ≠ [] := by
  refine ⟨?_, fun id => leaves.mem_values_nodes⟩
  rw [get?_nodes_eq_some_iff]
  apply and_congr_right'
  constructor
  · rintro rfl
    exact ⟨leaves.ids_under_ascending command, fun id => leaves.mem_ids_under⟩
  · rintro ⟨hascend, hmem⟩
    apply List.Pairwise.eq_of_mem_iff hascend (leaves.ids_under_ascending command)
    intro id
    rw [hmem, mem_ids_under]

end Leaves

end GpuProfile
