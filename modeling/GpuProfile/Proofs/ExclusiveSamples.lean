import GpuProfile.Proofs.CrowdedIntervals
import GpuProfile.Proofs.ExactMerge
import GpuProfile.Proofs.PairwiseScans

namespace GpuProfile

namespace Counter

variable {α : Type} {c : Counter α}

theorem length_touchers (slices : List Slice) (i : ℕ) :
    (c.touchers slices i).length = (c.interval i).load slices := List.countP_eq_length_filter.symm

theorem mem_touchers {slices : List Slice} {i : ℕ} {s : Slice} :
    s ∈ c.touchers slices i ↔ s ∈ slices ∧ s.Touches (c.interval i) := by
  rw [touchers, List.mem_filter, decide_eq_true_eq]

theorem getD_concurrency_of_not_mem (h : c.Increasing) (slices : List Slice) {i : ℕ} (hi : i ∉ c.samples) :
    (c.concurrency slices).getD i 0 = 0 := by
  by_cases hlt : i < c.timestamps.size
  · have hzero : i = 0 := by
      rw [mem_samples] at hi
      omega
    subst hzero
    exact getD_concurrency_zero h slices hlt
  · rw [Array.getD_eq_getD_getElem?, Array.getElem?_eq_none (by rw [size_concurrency]; omega)]
    rfl

end Counter

section

variable {α : Type} [Quantity α] {c : Counter α} (h : c.Increasing) (t : Timeline) (id : GroupId) {i : ℕ}

include h

theorem contains_min_iff : (t.prepare.weights c id).min.contains i ↔ i ∈ c.samples ∧
    (c.interval i).tally t.prepare.slices ≤ 1 ∧
      ∃ s ∈ t.prepare.ofGroup id, s.Touches (c.interval i) ∧ s.Surrounds (c.interval i) := by
  rw [SortedMap.contains]
  by_cases hi : i ∈ c.samples
  · rw [get?_min h t.prepare id hi, Credit.ofSlices_min]
    split
    · next hown => simp only [Option.isSome_some, hi, hown, true_and]
    · next hown => simp only [Option.isSome_none, Bool.false_eq_true, hi, hown, true_and]
  · have hnone : (t.prepare.weights c id).min.get? i = none :=
      congrArg Credit.min (Weights.sample_ofSlices_of_not_mem h _ _ hi)
    simp only [hnone, Option.isSome_none, Bool.false_eq_true, hi, false_and]

theorem contains_max_iff :
    (t.prepare.weights c id).max.contains i ↔ i ∈ c.samples ∧ t.Reaches id (c.interval i) := by
  rw [SortedMap.contains, ← Timeline.reaches_iff]
  by_cases hi : i ∈ c.samples
  · rw [get?_max h t.prepare id hi, Credit.ofSlices_max]
    split
    · next hreach => simp only [Option.isSome_some, hi, hreach, true_and]
    · next hreach => simp only [Option.isSome_none, Bool.false_eq_true, hi, hreach, true_and]
  · have hnone : (t.prepare.weights c id).max.get? i = none :=
      congrArg Credit.max (Weights.sample_ofSlices_of_not_mem h _ _ hi)
    simp only [hnone, Option.isSome_none, Bool.false_eq_true, hi, false_and]

section

variable (hfew : i ∈ c.samples → t.Uncrowded (c.interval i))

include hfew

theorem contains_min_iff_touchers : (t.prepare.weights c id).min.contains i ↔ i ∈ c.samples ∧
    ∃ s, c.touchers (t.slices.filter t.profiles) i = [s] ∧ s.group = id ∧ s.Surrounds (c.interval i) := by
  rw [contains_min_iff h]
  refine and_congr_right fun hi => ?_
  rw [(hfew hi).tally_eq, t.load_prepare_slices]
  constructor
  · rintro ⟨hload, s, hs, ht, hsur⟩
    obtain ⟨hmem, hprofiled, hgroup⟩ := Timeline.mem_prepare_ofGroup.mp hs
    exact ⟨s, Interval.filter_of_load_le_one hload (List.mem_filter.mpr ⟨hmem, hprofiled⟩) ht, hgroup, hsur⟩
  · rintro ⟨s, hone, hgroup, hsur⟩
    obtain ⟨hs, ht⟩ := Counter.mem_touchers.mp (hone ▸ List.mem_singleton_self s)
    obtain ⟨hmem, hprofiled⟩ := List.mem_filter.mp hs
    refine ⟨?_, s, Timeline.mem_prepare_ofGroup.mpr ⟨hmem, hprofiled, hgroup⟩, ht, hsur⟩
    rw [← Counter.length_touchers, hone, List.length_singleton]

variable {t id}

theorem sample_of_contains_min (hmin : (t.prepare.weights c id).min.contains i) :
    (t.prepare.weights c id).sample i = ⟨some 1, some 1, some 1⟩ := by
  obtain ⟨hi, htally, s, hs, ht, hsur⟩ := (contains_min_iff h t id).mp hmin
  have hload := htally
  rw [(hfew hi).tally_eq] at hload
  have hall : ∀ s' ∈ t.prepare.ofGroup id, s'.Touches (c.interval i) → s'.Surrounds (c.interval i) := by
    intro s' hs' ht'
    rwa [Interval.eq_of_load_le_one ((t.load_ofGroup_le id _).trans hload) hs' ht' hs ht]
  rw [weights_sample h t.prepare id hi, Credit.ofSlices_of_surrounds ⟨s, hs, ht⟩ hall, if_pos htally,
    share_of_le_one htally]

theorem sample_of_other (hmin : (t.prepare.weights c id).min.contains i) {other : GroupId} (hne : other ≠ id) :
    (t.prepare.weights c other).sample i = Credit.none := by
  obtain ⟨hi, hload, s, hs, ht, -⟩ := (contains_min_iff h t id).mp hmin
  rw [(hfew hi).tally_eq] at hload
  obtain ⟨hmem, hprofiled, hgroup⟩ := Timeline.mem_prepare_ofGroup.mp hs
  apply sample_eq_none h
  rintro ⟨-, s', hs', ht'⟩
  obtain ⟨hmem', hprofiled', hgroup'⟩ := Timeline.mem_prepare_ofGroup.mp hs'
  have hsame : s' = s := Interval.eq_of_load_le_one hload (Timeline.mem_prepare_slices.mpr ⟨hmem', hprofiled'⟩) ht'
    (Timeline.mem_prepare_slices.mpr ⟨hmem, hprofiled⟩) ht
  exact hne (by rw [← hgroup', hsame, hgroup])

theorem exists_contains_max_iff : (∃ g ∈ t.groups, (t.prepare.weights c g.id).max.contains i) ↔
    1 ≤ (c.concurrency t.prepare.slices).getD i 0 := by
  simp only [contains_max_iff h]
  by_cases hi : i ∈ c.samples
  · rw [Counter.getD_concurrency h _ hi, (hfew hi).tally_eq]
    constructor
    · rintro ⟨g, -, -, s, hs, hprofiled, -, ht⟩
      exact Interval.load_pos (Timeline.mem_prepare_slices.mpr ⟨hs, hprofiled⟩) ht
    · intro hpos
      obtain ⟨s, hs, ht⟩ := List.countP_pos_iff.mp hpos
      obtain ⟨hmem, hprofiled⟩ := Timeline.mem_prepare_slices.mp hs
      obtain ⟨g, hg, hid⟩ := List.mem_map.mp (Timeline.mem_ids_of_profiles hprofiled)
      exact ⟨g, hg, hi, s, hmem, hprofiled, hid.symm, by simpa using ht⟩
  · simp [Counter.getD_concurrency_of_not_mem h _ hi, hi]

theorem countP_contains_max_le (hn : (t.groups.map (·.id)).Nodup) :
    t.groups.countP (fun g => (t.prepare.weights c g.id).max.contains i) ≤
      (c.concurrency t.prepare.slices).getD i 0 := by
  by_cases hi : i ∈ c.samples
  · rw [Counter.getD_concurrency h _ hi, (hfew hi).tally_eq, ← Timeline.sum_load_ofGroup hn,
      List.countP_eq_length_filter, ← List.toFinset_card_of_nodup ((List.Nodup.of_map _ hn).filter _),
      List.toFinset_filter, Finset.card_filter]
    apply Finset.sum_le_sum
    intro g _
    split
    · next hmax =>
      obtain ⟨s, hs, ht⟩ := Timeline.reaches_iff.mpr ((contains_max_iff h t g.id).mp hmax).2
      exact Interval.load_pos hs ht
    · exact Nat.zero_le _
  · have hnone : t.groups.countP (fun g => (t.prepare.weights c g.id).max.contains i) = 0 := by
      rw [List.countP_eq_zero]
      intro g _ hmax
      exact hi ((contains_max_iff h t g.id).mp hmax).1
    rw [hnone]
    exact Nat.zero_le _

end

end

namespace Profile

/-- A sample that a group is certain of is touched by one slice, which is the group's and surrounds it. The group has
all of it and the others have nothing of it. The groups that may have caused a sample are at most as many as
the slices counted on it, and there are some whenever a slice is counted. -/
theorem certain_samples_exclusive {α : Type} [Quantity α] {t : Timeline} {cs : List (Counter α)}
    (h : checkTraces t cs = .ok ()) {c : Counter α} (hc : c ∈ cs) :
    ∀ i, (i ∈ c.samples → t.Uncrowded (c.interval i)) →
      (∀ id, ((t.prepare.weights c id).min.contains i ↔ i ∈ c.samples ∧
          ∃ s, c.touchers (t.slices.filter t.profiles) i = [s] ∧ s.group = id ∧ s.Surrounds (c.interval i)) ∧
        ((t.prepare.weights c id).min.contains i →
          (t.prepare.weights c id).sample i = ⟨some 1, some 1, some 1⟩ ∧
          ∀ other ≠ id, (t.prepare.weights c other).sample i = Credit.none)) ∧
      ((∃ g ∈ t.groups, (t.prepare.weights c g.id).max.contains i) ↔
        1 ≤ (c.concurrency t.prepare.slices).getD i 0) ∧
      t.groups.countP (fun g => (t.prepare.weights c g.id).max.contains i) ≤
        (c.concurrency t.prepare.slices).getD i 0 := by
  have hinc : c.Increasing := increasing_of_checkTraces h hc
  have hn : (t.groups.map (·.id)).Nodup := (checkTraces_eq_ok_iff.mp h).1
  intro i hfew
  refine ⟨fun id => ⟨contains_min_iff_touchers hinc t id hfew, fun hmin => ?_⟩,
    exists_contains_max_iff hinc hfew, countP_contains_max_le hinc hfew hn⟩
  exact ⟨sample_of_contains_min hinc hfew hmin, fun other hne => sample_of_other hinc hfew hmin hne⟩

theorem sketch_exclusive : checkTraces Sketch.timeline [Sketch.reads] = .ok () ∧
    (Sketch.timeline.prepare.weights Sketch.reads 1).sample 2 = ⟨some 1, some 1, some 1⟩ ∧
    (Sketch.timeline.prepare.weights Sketch.reads 2).sample 2 = Credit.none ∧
    ¬(Sketch.timeline.prepare.weights Sketch.reads 1).min.contains 5 ∧
    2 ≤ (Sketch.reads.concurrency Sketch.timeline.prepare.slices).getD 5 0 := by
  have hcheck : checkTraces Sketch.timeline [Sketch.reads] = .ok () := by decide
  have hexclusive := certain_samples_exclusive hcheck (List.mem_singleton_self Sketch.reads)
  obtain ⟨hmin, -⟩ := hexclusive 2 (by decide)
  obtain ⟨hmin', -, hmax⟩ := hexclusive 5 (by decide)
  have hcertain : (Sketch.timeline.prepare.weights Sketch.reads 1).min.contains 2 :=
    (hmin 1).1.mpr ⟨by decide, ⟨1, 0, 0, 30⟩, by decide, rfl, by decide⟩
  obtain ⟨hown, hothers⟩ := (hmin 1).2 hcertain
  have hshared : ¬(Sketch.timeline.prepare.weights Sketch.reads 1).min.contains 5 := by
    intro hin
    obtain ⟨-, s, hone, -⟩ := (hmin' 1).1.mp hin
    have hlength : (Sketch.reads.touchers (Sketch.timeline.slices.filter Sketch.timeline.profiles) 5).length = 2 := by
      decide
    rw [hone] at hlength
    cases hlength
  have htwo : Sketch.timeline.groups.countP
      (fun g => (Sketch.timeline.prepare.weights Sketch.reads g.id).max.contains 5) = 2 := by cbv
  exact ⟨hcheck, hown, hothers 2 (by decide), hshared, htwo ▸ hmax⟩

-- When the count starts over each of two groups is certain of what both have.
theorem crowd_not_exclusive :
    checkTraces (Crowd.timeline (2 ^ 31) (2 ^ 31)) [Crowd.reads] = .ok () ∧
    (Crowd.reads.concurrency (Crowd.timeline (2 ^ 31) (2 ^ 31)).prepare.slices).getD 1 0 = 0 ∧
    ∀ g ∈ (Crowd.timeline (2 ^ 31) (2 ^ 31)).groups,
      ((Crowd.timeline (2 ^ 31) (2 ^ 31)).prepare.weights Crowd.reads g.id).min.contains 1 ∧
      ((Crowd.timeline (2 ^ 31) (2 ^ 31)).prepare.weights Crowd.reads g.id).max.contains 1 := by
  refine ⟨Crowd.checks, ?_, fun g hg => ?_⟩
  · rw [Counter.getD_concurrency Crowd.increasing_reads _ (by decide), Crowd.tally_slices]
    decide
  · have hsample := Crowd.sample_of_wrapped (by decide) (by decide) (by decide) hg
    exact ⟨congrArg Option.isSome (congrArg Credit.min hsample), congrArg Option.isSome (congrArg Credit.max hsample)⟩

end Profile

end GpuProfile
