import GpuProfile.Proofs.ExactMerge

namespace GpuProfile

namespace Timeline

structure SameWork (t t' : Timeline) : Prop where
  groups : t.groups.Perm t'.groups
  slices : t.slices.filter t.profiles = t'.slices.filter t'.profiles

theorem SameWork.prepare_eq {t t' : Timeline} (h : t.SameWork t') : t.prepare = t'.prepare := by
  rw [prepare, prepare, h.slices]

end Timeline

variable {α : Type}

theorem Leaves.ofGroups_perm {groups groups' : List Group} (hn : (groups.map (·.id)).Nodup)
    (h : groups.Perm groups') : (ofGroups groups : Leaves α) = ofGroups groups' := by
  apply SortedMap.ofList_perm
  · rwa [List.map_map]
  · exact h.map _

namespace Profile

variable [Quantity α] {t t' : Timeline} {cs : List (Counter α)}

theorem leavesOf_sameWork (h : t.SameWork t') (hn : (t.groups.map (·.id)).Nodup) : leavesOf t cs = leavesOf t' cs := by
  rw [leavesOf, leavesOf, h.prepare_eq, Leaves.ofGroups_perm hn h.groups]

theorem compute_sameWork (h : t.SameWork t') (hcheck : checkTraces t cs = .ok ()) (hcheck' : checkTraces t' cs = .ok ()) :
    compute t cs = compute t' cs := by
  have hn := (checkTraces_eq_ok_iff.mp hcheck).1
  rw [compute, compute, hcheck, hcheck', leavesOf_sameWork h hn]

def Sketch.bare : Timeline where
  slices := [⟨1, 0, 0, 30⟩, ⟨1, 0, 20, 40⟩, ⟨2, 0, 50, 20⟩]
  groups := Sketch.timeline.groups.reverse

theorem bare_agrees : Sketch.timeline.SameWork Sketch.bare ∧
    ∃ p, compute Sketch.timeline [Sketch.occupancy, Sketch.reads] = .ok p ∧
      compute Sketch.bare [Sketch.occupancy, Sketch.reads] = .ok p := by
  have hsame : Sketch.timeline.SameWork Sketch.bare := ⟨by decide, by decide⟩
  obtain ⟨p, hp, -⟩ := Sketch.computes
  have heq : compute Sketch.timeline [Sketch.occupancy, Sketch.reads] =
      compute Sketch.bare [Sketch.occupancy, Sketch.reads] := compute_sameWork hsame (by decide) (by decide)
  exact ⟨hsame, p, hp, heq ▸ hp⟩

end Profile

end GpuProfile
