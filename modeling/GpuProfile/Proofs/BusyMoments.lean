import GpuProfile.Proofs.EntryValues
import GpuProfile.Proofs.MachineRun
import GpuProfile.Proofs.SliceOrder

namespace GpuProfile

namespace Slice

def span (s : Slice) : Finset ℕ := Finset.Ico s.start (s.start + s.duration)

end Slice

def moments (slices : List Slice) : Finset ℕ := slices.toFinset.biUnion Slice.span

@[simp]
theorem mem_moments {slices : List Slice} {t : ℕ} : t ∈ moments slices ↔ ∃ s ∈ slices, t ∈ s.span := by
  simp [moments]

theorem moments_concat (slices : List Slice) (s : Slice) :
    moments (slices ++ [s]) = s.span ∪ moments slices := by
  ext t
  simp only [mem_moments, List.mem_append, List.mem_singleton, or_and_right, exists_or, exists_eq_left,
    Finset.mem_union, or_comm]

theorem card_moments_concat (slices : List Slice) (s : Slice) :
    (moments (slices ++ [s])).card = (s.span \ moments slices).card + (moments slices).card := by
  rw [moments_concat, Finset.card_sdiff_add_card]

theorem card_moments_le (slices : List Slice) : (moments slices).card ≤ totalDuration slices := by
  induction slices using List.reverseRecOn with
  | nil => simp [moments]
  | append_singleton seen s ih =>
    have hspan : (s.span \ moments seen).card ≤ s.duration := by
      refine (Finset.card_le_card Finset.sdiff_subset).trans_eq ?_
      rw [Slice.span, Nat.card_Ico, Nat.add_sub_cancel_left]
    have htotal : totalDuration (seen ++ [s]) = totalDuration seen + s.duration := by simp [totalDuration]
    rw [card_moments_concat, htotal]
    omega

namespace Busy

theorem lt_reach_iff {slices : List Slice} {t : ℕ} :
    t < (slices.foldl extend none).reach ↔ ∃ s ∈ slices, t < s.stop := by
  induction slices using List.reverseRecOn with
  | nil => simp [none]
  | append_singleton seen s ih =>
    rw [List.foldl_concat, extend, lt_max_iff, ih]
    simp only [List.mem_append, List.mem_singleton, or_and_right, exists_or, exists_eq_left]

variable {seen : List Slice} {s : Slice}

-- All moments counted so far lie before the reach, in whatever order the slices came.
theorem lt_reach_of_mem_moments (h : ∀ s ∈ seen, s.Ends) {t : ℕ} (ht : t ∈ moments seen) :
    t < (seen.foldl extend none).reach := by
  obtain ⟨s, hs, hspan⟩ := mem_moments.mp ht
  refine lt_reach_iff.mpr ⟨s, hs, ?_⟩
  rw [(h s hs).stop_eq]
  exact (Finset.mem_Ico.mp hspan).2

theorem subset_span_sdiff_moments (h : ∀ s ∈ seen, s.Ends) (hs : s.Ends) :
    Finset.Ico (max s.start (seen.foldl extend none).reach) s.stop ⊆ s.span \ moments seen := by
  intro t ht
  rw [Finset.mem_Ico, max_le_iff] at ht
  refine Finset.mem_sdiff.mpr ⟨?_, fun hm => ?_⟩
  · rw [Slice.span, Finset.mem_Ico, ← hs.stop_eq]
    exact ⟨ht.1.1, ht.2⟩
  · exact absurd (lt_reach_of_mem_moments h hm) (not_lt.mpr ht.1.2)

-- From the start of the next slice on, the moments up to the reach have all been counted: the slice that
-- reaches furthest started no later.
theorem span_sdiff_moments (h : ∀ s ∈ seen, s.Ends) (hs : s.Ends) (horder : ∀ s' ∈ seen, s'.start ≤ s.start) :
    s.span \ moments seen = Finset.Ico (max s.start (seen.foldl extend none).reach) s.stop := by
  refine (Finset.Subset.antisymm (fun t ht => ?_) (subset_span_sdiff_moments h hs))
  obtain ⟨hspan, hnew⟩ := Finset.mem_sdiff.mp ht
  rw [Slice.span, Finset.mem_Ico, ← hs.stop_eq] at hspan
  have hreach : (seen.foldl extend none).reach ≤ t := by
    by_contra hlt
    obtain ⟨s', hs', hstop⟩ := lt_reach_iff.mp (not_le.mp hlt)
    rw [(h s' hs').stop_eq] at hstop
    exact hnew (mem_moments.mpr ⟨s', hs', Finset.mem_Ico.mpr ⟨(horder s' hs').trans hspan.1, hstop⟩⟩)
  exact Finset.mem_Ico.mpr ⟨max_le hspan.1 hreach, hspan.2⟩

theorem wall_concat (seen : List Slice) (s : Slice) : ((seen ++ [s]).foldl extend none).wall =
    (Finset.Ico (max s.start (seen.foldl extend none).reach) s.stop).card + (seen.foldl extend none).wall := by
  rw [List.foldl_concat, Nat.card_Ico, Nat.add_comm]
  rfl

theorem wall_le_card_moments {slices : List Slice} (h : ∀ s ∈ slices, s.Ends) :
    (slices.foldl extend none).wall ≤ (moments slices).card := by
  induction slices using List.reverseRecOn with
  | nil => exact Nat.zero_le _
  | append_singleton seen s ih =>
    rw [List.forall_mem_append, List.forall_mem_singleton] at h
    rw [wall_concat, card_moments_concat]
    exact Nat.add_le_add (Finset.card_le_card (subset_span_sdiff_moments h.1 h.2)) (ih h.1)

theorem wall_eq_card_moments {slices : List Slice} (h : ∀ s ∈ slices, s.Ends) (horder : InOrder slices) :
    (slices.foldl extend none).wall = (moments slices).card := by
  induction slices using List.reverseRecOn with
  | nil => rfl
  | append_singleton seen s ih =>
    rw [List.forall_mem_append, List.forall_mem_singleton] at h
    obtain ⟨hseen, -, hbefore⟩ := List.pairwise_append.mp horder
    have hlast : ∀ s' ∈ seen, s'.start ≤ s.start := fun s' hs' => hbefore s' hs' s List.mem_cons_self
    rw [wall_concat, card_moments_concat, span_sdiff_moments h.1 h.2 hlast, ih h.1 hseen]

theorem times_count_moments {slices : List Slice} (h : ∀ s ∈ slices, s.Ends) :
    ((∃ d, ofSlices slices = .error d) ↔ timelineEnd ≤ totalDuration slices) ∧
    (InOrder slices → totalDuration slices < timelineEnd →
      (ofSlices slices).map times = .ok (totalDuration slices, (moments slices).card)) ∧
    slices.foldlM Machine.addBusy none = (ofSlices slices).mapError .defect ∧
    ∀ b, ofSlices slices = .ok b → b.wall ≤ (moments slices).card ∧ b.wall ≤ b.gpu := by
  have hgpu : (slices.foldl extend none).gpu = totalDuration slices := by
    rw [foldl_extend_gpu, none, Nat.zero_add]
  have hwall := wall_le_card_moments h
  refine ⟨?_, fun horder hfits => ?_, Machine.foldlM_addBusy (le_refl _), fun b hb => ?_⟩
  · constructor
    · rintro ⟨d, hd⟩
      by_contra hfits
      rw [ofSlices_of_fits (not_le.mp hfits)] at hd
      cases hd
    · intro hover
      obtain ⟨s, -, hs⟩ := ofSlices_of_not_fits hover
      exact ⟨_, hs⟩
  · rw [ofSlices_of_fits hfits]
    exact congrArg Except.ok (Prod.ext hgpu (wall_eq_card_moments h horder))
  · obtain ⟨-, rfl⟩ := ofSlices_eq_ok_iff.mp hb
    rw [hgpu]
    exact ⟨hwall, hwall.trans (card_moments_le slices)⟩

def Burst.slices : List Slice :=
  [⟨1, 0, 0, 20⟩, ⟨1, 0, 5, 5⟩, ⟨1, 0, 5, 5⟩, ⟨1, 0, 15, 10⟩, ⟨1, 0, 25, 0⟩, ⟨1, 0, 25, 5⟩, ⟨1, 0, 40, 2⟩]

theorem burst_times : (∀ s ∈ Burst.slices, s.Ends) ∧ InOrder Burst.slices ∧
    (ofSlices Burst.slices).map times = .ok (47, 32) ∧
    (∀ s ∈ Burst.slices.reverse, s.Ends) ∧ (ofSlices Burst.slices.reverse).map times = .ok (47, 2) ∧
    Burst.slices.reverse.foldlM Machine.addBusy none = (ofSlices Burst.slices.reverse).mapError .defect ∧
    ∀ b, ofSlices Burst.slices.reverse = .ok b → b.wall ≤ 32 := by
  have hends : ∀ s ∈ Burst.slices, s.Ends := by decide
  have hends' : ∀ s ∈ Burst.slices.reverse, s.Ends := by decide
  have horder : InOrder Burst.slices := by unfold InOrder; decide
  have htotal : totalDuration Burst.slices = 47 := by decide
  have hcard : (moments Burst.slices).card = 32 := by decide
  have hcard' : (moments Burst.slices.reverse).card = 32 := by decide
  have hfits : totalDuration Burst.slices < timelineEnd := by decide
  obtain ⟨-, htimes, -, -⟩ := times_count_moments hends
  obtain ⟨-, -, hwords, hwall⟩ := times_count_moments hends'
  have hboth := htimes horder hfits
  rw [htotal, hcard] at hboth
  rw [hcard'] at hwall
  exact ⟨hends, horder, hboth, hends', rfl, hwords, fun b hb => (hwall b hb).1⟩

end Busy

end GpuProfile
