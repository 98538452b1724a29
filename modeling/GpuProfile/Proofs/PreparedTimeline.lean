import GpuProfile.Proofs.SliceOrder

namespace GpuProfile

namespace Timeline

def counted (t : Timeline) : List Slice := t.slices.filter fun s => s.depth = 0 ∧ s.group ∈ t.groups.map (·.id)

theorem filter_profiles (t : Timeline) : t.slices.filter t.profiles = t.counted := by
  apply List.filter_congr
  intro s _
  rw [Bool.eq_iff_iff]
  simp [profiles, declares]

end Timeline

/-- The slices that count, ordered by their start, those that start together as they are listed, and the same
slices once more by group. -/
structure Prepared.Represents (p : Prepared) (t : Timeline) : Prop where
  perm : p.slices.Perm t.counted
  inOrder : InOrder p.slices
  stable : ∀ start, p.slices.filter (·.start = start) = t.counted.filter (·.start = start)
  byGroup : ∀ id, p.byGroup.get? id =
    if id ∈ p.slices.map (·.group) then some (p.slices.filter (·.group = id)) else none
  complete : p.byGroup.values.flatten.Perm p.slices

theorem InOrder.head_le {a s : Slice} {rest : List Slice} (h : InOrder (a :: rest)) (hs : s ∈ a :: rest) :
    a.start ≤ s.start := by
  rcases List.mem_cons.mp hs with rfl | hs
  · exact le_rfl
  · exact (List.pairwise_cons.mp h).1 s hs

-- The first slices of both lists start together, as no slice of either list starts before them.
theorem eq_of_filter_start {xs ys : List Slice} (hx : InOrder xs) (hy : InOrder ys) (hperm : xs.Perm ys)
    (h : ∀ start, xs.filter (·.start = start) = ys.filter (·.start = start)) : xs = ys := by
  induction xs generalizing ys with
  | nil => exact hperm.nil_eq
  | cons a rest ih =>
    obtain ⟨b, rest', rfl⟩ := List.exists_cons_of_ne_nil (List.ne_nil_of_mem (hperm.subset List.mem_cons_self))
    have hstart : b.start = a.start :=
      le_antisymm (hy.head_le (hperm.subset List.mem_cons_self)) (hx.head_le (hperm.symm.subset List.mem_cons_self))
    have hhead := h a.start
    rw [List.filter_cons, List.filter_cons, if_pos (by simp), if_pos (by simp [hstart])] at hhead
    obtain ⟨rfl, -⟩ := List.cons.inj hhead
    rw [ih (List.pairwise_cons.mp hx).2 (List.pairwise_cons.mp hy).2 hperm.cons_inv]
    intro start
    have htail := h start
    rw [List.filter_cons, List.filter_cons] at htail
    split at htail
    · exact (List.cons.inj htail).2
    · exact htail

namespace Timeline

theorem represents_prepare (t : Timeline) : t.prepare.Represents t where
  perm := t.filter_profiles ▸ t.prepare_slices_perm
  inOrder := inOrder_mergeSort _
  stable start := by
    rw [← filter_profiles]
    exact filter_mergeSort_of_start fun s hs => of_decide_eq_true (List.mem_filter.mp hs).2
  byGroup := SortedMap.get?_groupBy_eq _ _
  complete := SortedMap.values_groupBy_perm _ _

end Timeline

theorem Prepared.Represents.eq {p p' : Prepared} {t : Timeline} (h : p.Represents t) (h' : p'.Represents t) : p = p' := by
  have hslices : p.slices = p'.slices := eq_of_filter_start h.inOrder h'.inOrder (h.perm.trans h'.perm.symm)
    fun start => (h.stable start).trans (h'.stable start).symm
  have hbuckets : p.byGroup = p'.byGroup := SortedMap.ext_get? fun id => by rw [h.byGroup, h'.byGroup, hslices]
  cases p
  cases p'
  rw [Prepared.mk.injEq]
  exact ⟨hslices, hbuckets⟩

theorem prepared_with_leaves {t : Timeline} (hn : (t.groups.map (·.id)).Nodup) (α : Type) :
    t.prepare.Represents t ∧ (∀ p : Prepared, p.Represents t → p = t.prepare) ∧
    (Leaves.ofGroups t.groups : Leaves α).toList.Perm (t.groups.map fun g => (g.id, ⟨g.command, .empty⟩)) := by
  refine ⟨t.represents_prepare, fun p hp => hp.eq t.represents_prepare, ?_⟩
  apply SortedMap.toList_ofList_perm
  rwa [List.map_map]

def Mixed.timeline : Timeline where
  slices := [⟨1, 0, 30, 5⟩, ⟨2, 0, 10, 5⟩, ⟨1, 1, 0, 100⟩, ⟨9, 0, 0, 100⟩, ⟨1, 0, 10, 7⟩, ⟨1, 0, 30, 5⟩]
  groups := [⟨2, ⟨[0, 2]⟩⟩, ⟨1, ⟨[0, 1]⟩⟩, ⟨3, ⟨[]⟩⟩]

theorem mixed_prepared : (Mixed.timeline.groups.map (·.id)).Nodup ∧ Mixed.timeline.prepare.Represents Mixed.timeline ∧
    Mixed.timeline.prepare.slices = [⟨2, 0, 10, 5⟩, ⟨1, 0, 10, 7⟩, ⟨1, 0, 30, 5⟩, ⟨1, 0, 30, 5⟩] ∧
    (Leaves.ofGroups Mixed.timeline.groups : Leaves ℚ).toList.Perm
      [(2, ⟨⟨[0, 2]⟩, .empty⟩), (1, ⟨⟨[0, 1]⟩, .empty⟩), (3, ⟨⟨[]⟩, .empty⟩)] := by
  have hn : (Mixed.timeline.groups.map (·.id)).Nodup := by decide
  obtain ⟨hrepresents, -, hleaves⟩ := prepared_with_leaves hn ℚ
  exact ⟨hn, hrepresents, by cbv, hleaves⟩

end GpuProfile
