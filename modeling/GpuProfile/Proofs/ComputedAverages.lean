import GpuProfile.Proofs.AverageRange
import GpuProfile.Proofs.BusyTotals
import GpuProfile.Proofs.SharedIdentifiers

/-!
When an average is computed. A group has one when its slices take up some of the time of the samples;
then it also has GPU time to weigh with, so that no command loses the averages of the groups under it.
Little arithmetic is needed for this, and rounding leaves it in force.
-/

namespace GpuProfile

namespace Quantity

def Positive {α : Type} [Quantity α] (x : α) : Prop := lt 0 x = true

/-- Nothing comes of nothing, and what is positive stays so when more is added. -/
class LawfulWeights (α : Type) [Quantity α] : Prop where
  ofNat_zero : (ofNat 0 : α) = 0
  ofNat_pos {n : ℕ} : 0 < n → n < timelineEnd → Positive (ofNat n : α)
  zero_beq_zero : ((0 : α) == 0) = true
  beq_zero_of_pos {x : α} : Positive x → (x == 0) = false
  zero_add_zero : (0 : α) + 0 = 0
  add_pos {x y : α} : x = 0 ∨ Positive x → Positive y → Positive (x + y)
  zero_div {n : ℕ} : 0 < n → n < timelineEnd → (0 : α) / ofNat n = 0
  mul_zero {n : ℕ} : 0 < n → n < timelineEnd → (ofNat n : α) * 0 = 0
  zero_mul_share (count : ℕ) : (0 : α) * share count = 0

theorem positive_exact {x : ℚ} : Positive x ↔ 0 < x := decide_eq_true_iff

instance : LawfulWeights ℚ where
  ofNat_zero := Nat.cast_zero
  ofNat_pos h _ := positive_exact.mpr (Nat.cast_pos.mpr h)
  zero_beq_zero := rfl
  beq_zero_of_pos h := beq_false_of_ne (positive_exact.mp h).ne'
  zero_add_zero := zero_add 0
  add_pos hx hy := by
    rw [positive_exact] at hx hy ⊢
    rcases hx with rfl | hx
    · rwa [zero_add]
    · exact add_pos hx hy
  zero_div _ _ := zero_div _
  mul_zero _ _ := mul_zero _
  zero_mul_share count := zero_mul (share count)

end Quantity

open Quantity

namespace Slice

def Overlaps (s : Slice) (v : Interval) : Prop := max s.start v.start < min s.stop v.stop

instance (s : Slice) (v : Interval) : Decidable (s.Overlaps v) := inferInstanceAs (Decidable (_ < _))

theorem Surrounds.overlaps {s : Slice} {v : Interval} (h : s.Surrounds v) (hv : v.start < v.stop) : s.Overlaps v := by
  obtain ⟨hstart, hstop⟩ := h
  unfold Overlaps
  omega

theorem Overlaps.touches {s : Slice} {v : Interval} (h : s.Overlaps v) : s.Touches v := by
  unfold Overlaps at h
  constructor <;> omega

theorem Overlaps.duration_pos {s : Slice} {v : Interval} (h : s.Overlaps v) : 0 < s.duration := by
  unfold Overlaps stop at h
  omega

end Slice

theorem Counter.interval_lt {α : Type} (c : Counter α) (i : ℕ) : (c.interval i).stop < timelineEnd :=
  (c.timestamps.getD i 0).toNat_lt

section

variable {v : Interval} (hv : v.start < v.stop)

include hv

section

variable {α : Type} [Quantity α] [LawfulWeights α] (hend : v.stop < timelineEnd)

include hend

theorem coverage_of_not_overlaps {s : Slice} (h : ¬s.Overlaps v) : (Weights.coverage v s : α) = 0 := by
  have hnone : Nat.min v.stop s.stop - Nat.max v.start s.start = 0 := by
    change min v.stop s.stop - max v.start s.start = 0
    unfold Slice.Overlaps at h
    omega
  rw [Weights.coverage, if_pos hv.ne', hnone, LawfulWeights.ofNat_zero]
  apply LawfulWeights.zero_div
  · omega
  · omega

theorem Credit.ofSlices_estimate_eq_zero (count : ℕ) {slices : List Slice} (h : ∀ s ∈ slices, ¬s.Overlaps v) :
    (ofSlices v count slices : Credit α).estimate.getD 0 = 0 := by
  have hfold : ∀ (xs : List Slice) (credit : Credit α), (∀ s ∈ xs, ¬s.Overlaps v) → credit.estimate.getD 0 = 0 →
      (xs.foldl (add v count) credit).estimate.getD 0 = 0 := by
    intro xs
    induction xs with
    | nil => exact fun _ _ hc => hc
    | cons s rest ih =>
      intro credit hxs hc
      rw [List.forall_mem_cons] at hxs
      apply ih _ hxs.2
      have hsur : ¬s.Surrounds v := fun hs => hxs.1 (hs.overlaps hv)
      rw [add, if_neg hsur, Option.getD_some, hc, coverage_of_not_overlaps hv hend hxs.1, LawfulWeights.zero_mul_share,
        LawfulWeights.zero_add_zero]
  exact hfold _ none (fun s hs => h s (List.mem_filter.mp hs).1) rfl

end

theorem coverage_pos {s : Slice} (h : s.Overlaps v) : 0 < (Weights.coverage v s : ℚ) := by
  have hsome : 0 < min v.stop s.stop - max v.start s.start := by
    unfold Slice.Overlaps at h
    omega
  have hlength : 0 < v.stop - v.start := by omega
  rw [coverage_exact, if_pos hv.ne']
  positivity

-- A slice that surrounds the interval takes back what others have, but leaves a whole share.
theorem Credit.ofSlices_estimate_pos_iff (count : ℕ) {slices : List Slice} (hend : v.stop < timelineEnd) :
    0 < (ofSlices v count slices : Credit ℚ).estimate.getD 0 ↔ ∃ s ∈ slices, s.Overlaps v := by
  have hfold : ∀ (xs : List Slice) (credit : Credit ℚ), 0 ≤ credit.estimate.getD 0 →
      (0 < credit.estimate.getD 0 ∨ ∃ s ∈ xs, s.Overlaps v) →
        0 < (xs.foldl (add v count) credit).estimate.getD 0 := by
    intro xs
    induction xs with
    | nil => simp
    | cons s rest ih =>
      intro credit hnon hc
      apply ih _ (add_estimate_bounds v count credit s hnon).1
      have hshare := share_pos count
      by_cases hsur : s.Surrounds v
      · left
        rwa [add, if_pos hsur, Option.getD_some]
      · have hmore := mul_nonneg (coverage_nonneg v s) hshare.le
        rw [add, if_neg hsur, Option.getD_some]
        rcases hc with hpos | ⟨s', hs', hover⟩
        · left
          linarith
        · rcases List.mem_cons.mp hs' with rfl | hrest
          · left
            have hpart := mul_pos (coverage_pos hv hover) hshare
            linarith
          · exact .inr ⟨s', hrest, hover⟩
  constructor
  · intro hpos
    by_contra hno
    push Not at hno
    rw [ofSlices_estimate_eq_zero hv hend count hno] at hpos
    exact lt_irrefl 0 hpos
  · rintro ⟨s, hs, ho⟩
    apply hfold _ none le_rfl
    exact .inr ⟨s, List.mem_filter.mpr ⟨hs, by simpa using ho.touches⟩, ho⟩

end

section

variable {α : Type} [Quantity α]

theorem Prepared.perf?_isSome (p : Prepared) (c : Counter α) (ho : c.operator = .timeWeightedAverage) (id : GroupId) :
    (p.perf? c id).isSome ↔ (((p.weights c id).estimate.mean c).weight == 0) = false := by
  rw [perf?, Weights.perf?, ho, Option.isSome_map]
  simp only [SampleWeights.aggregate?, Mean.quotient?]
  split <;> simp_all

theorem mean_weight (w : SampleWeights α) (c : Counter α) : (w.mean c).weight = w.toList.foldl
    (fun x p => x + (Quantity.ofNat ((c.interval p.1).stop - (c.interval p.1).start) : α) * p.2) 0 := by
  change (List.foldl _ (⟨0, 0⟩ : Mean α) _).weight = List.foldl _ (Mean.weight ⟨0, 0⟩) _
  exact (List.foldl_hom Mean.weight fun _ _ => rfl).symm

variable [LawfulWeights α]

theorem mean_weight_eq_zero {w : SampleWeights α} {c : Counter α} (h : c.Increasing)
    (hw : ∀ i x, w.get? i = some x → i ∈ c.samples ∧ x = 0) : (w.mean c).weight = 0 := by
  have hpairs : ∀ p ∈ w.toList, p.1 ∈ c.samples ∧ p.2 = 0 := fun p hp => hw p.1 p.2 (w.mem_toList_iff.mp hp)
  rw [mean_weight]
  generalize w.toList = pairs at hpairs
  induction pairs with
  | nil => rfl
  | cons p rest ih =>
    rw [List.forall_mem_cons] at hpairs
    obtain ⟨⟨hi, hzero⟩, hrest⟩ := hpairs
    have hlength := h.start_lt_stop hi
    have hend := c.interval_lt p.1
    rw [List.foldl_cons, hzero, LawfulWeights.mul_zero (by omega) (by omega), LawfulWeights.zero_add_zero]
    exact ih hrest

theorem overlaps_of_perf? {c : Counter α} (h : c.Increasing) (ho : c.operator = .timeWeightedAverage)
    {p : Prepared} {id : GroupId} (hsome : (p.perf? c id).isSome) :
    ∃ s ∈ p.ofGroup id, ∃ i ∈ c.samples, s.Overlaps (c.interval i) := by
  by_contra hno
  push Not at hno
  rw [p.perf?_isSome c ho, mean_weight_eq_zero h, LawfulWeights.zero_beq_zero] at hsome
  · cases hsome
  · intro i x hx
    have hi : i ∈ c.samples := by
      by_contra hi
      have hnone := congrArg Credit.estimate (sample_eq_none h p id fun hs => hi hs.1)
      change (p.weights c id).estimate.get? i = none at hnone
      rw [hnone] at hx
      cases hx
    refine ⟨hi, ?_⟩
    have hzero : ((p.weights c id).estimate.get? i).getD 0 = 0 := by
      rw [get?_estimate h p id hi]
      exact Credit.ofSlices_estimate_eq_zero (h.start_lt_stop hi) (c.interval_lt i) _ fun s hs => hno s hs i hi
    rwa [hx] at hzero

end

theorem mean_weight_pos {w : SampleWeights ℚ} {c : Counter ℚ} (hw : ∀ p ∈ w.toList, 0 ≤ c.span p) {i : ℕ} {x : ℚ}
    (hx : w.get? i = some x) (hpos : 0 < c.span (i, x)) : 0 < (w.mean c).weight := by
  have hmem : c.span (i, x) ∈ w.toList.map c.span := List.mem_map_of_mem (w.mem_toList_iff.mpr hx)
  rw [mean_exact]
  exact hpos.trans_le (List.single_le_sum (by rwa [List.forall_mem_map]) _ hmem)

theorem perf?_isSome_iff {c : Counter ℚ} (h : c.Increasing) (ho : c.operator = .timeWeightedAverage) (t : Timeline)
    (id : GroupId) : (t.prepare.perf? c id).isSome ↔
      ∃ s ∈ t.prepare.ofGroup id, ∃ i ∈ c.samples, s.Overlaps (c.interval i) := by
  constructor
  · exact overlaps_of_perf? h ho
  · rintro ⟨s, hs, i, hi, hover⟩
    have hpos : 0 < ((t.prepare.weights c id).estimate.get? i).getD 0 := by
      rw [get?_estimate h t.prepare id hi]
      exact (Credit.ofSlices_estimate_pos_iff (h.start_lt_stop hi) _ (c.interval_lt i)).mpr ⟨s, hs, hover⟩
    cases hx : (t.prepare.weights c id).estimate.get? i with
    | none => simp [hx] at hpos
    | some x =>
      rw [hx, Option.getD_some] at hpos
      rw [t.prepare.perf?_isSome c ho]
      apply beq_false_of_ne
      refine (mean_weight_pos (fun p hp => ?_) hx ?_).ne'
      · have hget := (t.prepare.weights c id).estimate.mem_toList_iff.mp hp
        exact mul_nonneg (Nat.cast_nonneg _) (reaches_of_get? h t id List.mem_cons_self hget).2.2
      · apply mul_pos _ hpos
        exact_mod_cast Nat.sub_pos_of_lt (h.start_lt_stop hi)

namespace Leaves

variable {α : Type} [Quantity α]

def Weighed (metric : MetricId) (leaf : Leaf α) : Prop :=
  (leaf.value? metric).isSome → ∃ busy, leaf.value? Metric.gpuTime.id = some busy ∧ Positive busy.estimate

theorem weightedSum_concat (metric : MetricId) (members : List (Leaf α)) (leaf : Leaf α) :
    (weightedSum metric (members ++ [leaf])).2 = match leaf.value? metric with
      | none => (weightedSum metric members).2
      | some _ => (weightedSum metric members).2 + ((leaf.value? Metric.gpuTime.id).map (·.estimate)).getD 0 := by
  rw [weightedSum, List.foldl_append]
  cases hv : leaf.value? metric <;> simp [hv, weightedSum]

variable [LawfulWeights α]

theorem weightedSum_time {metric : MetricId} {members : List (Leaf α)} (h : ∀ leaf ∈ members, Weighed metric leaf) :
    ((weightedSum metric members).2 = 0 ∧ ∀ leaf ∈ members, leaf.value? metric = none) ∨
      (Positive (weightedSum metric members).2 ∧ ∃ leaf ∈ members, (leaf.value? metric).isSome) := by
  induction members using List.reverseRecOn with
  | nil => exact .inl ⟨rfl, by simp⟩
  | append_singleton members leaf ih =>
    have hbefore := ih fun x hx => h x (List.mem_append_left _ hx)
    have hlast := h leaf (by simp)
    rw [weightedSum_concat]
    cases hv : leaf.value? metric with
    | none =>
      rcases hbefore with ⟨hzero, hnone⟩ | ⟨hpos, x, hx, hsome⟩
      · left
        refine ⟨hzero, fun x hx => ?_⟩
        rcases List.mem_append.mp hx with hx | hx
        · exact hnone x hx
        · rwa [List.mem_singleton.mp hx]
      · exact .inr ⟨hpos, x, List.mem_append_left _ hx, hsome⟩
    | some value =>
      obtain ⟨busy, hbusy, hpos⟩ := hlast (by rw [hv]; rfl)
      right
      refine ⟨?_, leaf, by simp, by rw [hv]; rfl⟩
      rw [hbusy]
      exact LawfulWeights.add_pos (hbefore.imp And.left And.left) hpos

theorem mergeMetric_eq_none_iff {metric : Metric} (ho : metric.operator = .timeWeightedAverage)
    {members : List (Leaf α)} (h : ∀ leaf ∈ members, Weighed metric.id leaf) :
    mergeMetric metric members = none ↔ ∀ leaf ∈ members, leaf.value? metric.id = none := by
  rw [mergeMetric, ho]
  dsimp only
  rcases weightedSum_time h with ⟨hzero, hnone⟩ | ⟨hpos, leaf, hleaf, hsome⟩
  · rw [hzero, if_pos LawfulWeights.zero_beq_zero]
    exact iff_of_true rfl hnone
  · rw [LawfulWeights.beq_zero_of_pos hpos, if_neg Bool.false_ne_true]
    apply iff_of_false
    · simp
    · intro hnone
      rw [hnone leaf hleaf] at hsome
      cases hsome

end Leaves

namespace Profile

section

variable {α : Type} [Quantity α] {t : Timeline} {cs : List (Counter α)} {leaves : Leaves α} {k : ℕ} {c : Counter α}
  (hleaves : leavesOf t cs = .ok leaves) (hn : (t.groups.map (·.id)).Nodup)

include hleaves hn

theorem mem_under_of_group {g : Group} (hg : g ∈ t.groups) {command : CommandIndex} (ha : command.IsAbove g.command) :
    ∃ leaf, (g.id, leaf) ∈ leaves.under command ∧ ∀ metric, leaves.value? g.id metric = leaf.value? metric := by
  have hsome := leavesOf_isSome hleaves hn hg
  rw [← Leaves.isSome_get?_iff] at hsome
  obtain ⟨leaf, hleaf⟩ := Option.isSome_iff_exists.mp hsome
  refine ⟨leaf, ?_, fun metric => ?_⟩
  · rw [(under_perm hleaves hn command).mem_iff, List.mem_filterMap]
    refine ⟨g, List.mem_filter.mpr ⟨hg, by simpa using ha⟩, ?_⟩
    rw [hleaf, Option.map_some]
  · rw [Leaves.value?, hleaf, Option.bind_some]

variable [LawfulWeights α] (hsize : cs.length + 2 ≤ UInt32.size) (hk : cs[k]? = some c) (hinc : c.Increasing)
  (ho : c.operator = .timeWeightedAverage)

include hsize hk hinc ho

theorem busy_of_average {g : Group} (hg : g ∈ t.groups)
    (hsome : (leaves.value? g.id (Metric.ofCounter k c).id).isSome) :
    ∃ busy, leaves.value? g.id Metric.gpuTime.id = some busy ∧ Positive busy.estimate := by
  obtain ⟨b, hb, hgpu, -⟩ := leavesOf_times hleaves hn hsize hg
  obtain ⟨hfits, rfl⟩ := Busy.ofSlices_eq_ok_iff.mp hb
  rw [leavesOf_counter hleaves hn hsize hg hk (by rw [ho]; rfl)] at hsome
  obtain ⟨s, hs, i, -, hover⟩ := overlaps_of_perf? hinc ho hsome
  have hle : s.duration ≤ totalDuration (t.prepare.ofGroup g.id) :=
    List.single_le_sum (fun _ _ => Nat.zero_le _) _ (List.mem_map_of_mem hs)
  have hpos := hover.duration_pos
  refine ⟨_, hgpu, ?_⟩
  rw [Busy.foldl_extend_gpu]
  apply LawfulWeights.ofNat_pos
  · omega
  · rwa [Busy.none, Nat.zero_add]

theorem average_eq_none_iff (command : CommandIndex) :
    Leaves.mergeMetric (Metric.ofCounter k c) ((leaves.under command).map (·.2)) = none ↔
      ∀ g ∈ t.groups, command.IsAbove g.command → leaves.value? g.id (Metric.ofCounter k c).id = none := by
  have hweighed : ∀ leaf ∈ (leaves.under command).map (·.2), Leaves.Weighed (Metric.ofCounter k c).id leaf := by
    rw [List.forall_mem_map]
    intro p hp hsome
    obtain ⟨g, hg, -, -, hvalue⟩ := group_of_mem_under hleaves hn hp
    rw [← hvalue] at hsome ⊢
    exact busy_of_average hleaves hn hsize hk hinc ho hg hsome
  rw [Leaves.mergeMetric_eq_none_iff ho hweighed, List.forall_mem_map]
  constructor
  · intro hnone g hg ha
    obtain ⟨leaf, hleaf, hvalue⟩ := mem_under_of_group hleaves hn hg ha
    rw [hvalue]
    exact hnone _ hleaf
  · intro hnone p hp
    obtain ⟨g, hg, ha, -, hvalue⟩ := group_of_mem_under hleaves hn hp
    rw [← hvalue]
    exact hnone g hg ha

end

variable {t : Timeline} {cs : List (Counter ℚ)} {p : Profile ℚ} {k : ℕ} {c : Counter ℚ}

/-- No computed average is thrown away: groups that have one have GPU time to weigh it with, and a command
has one just when a group under it has, that is when a slice of such a group overlaps a sample interval. -/
theorem averages_kept (h : compute t cs = .ok p) (hsize : cs.length + 2 ≤ UInt32.size) (hk : cs[k]? = some c)
    (ho : c.operator = .timeWeightedAverage) : ∃ leaves, leavesOf t cs = .ok leaves ∧
      (∀ g ∈ t.groups, (leaves.value? g.id (Metric.ofCounter k c).id).isSome →
        ∃ busy, leaves.value? g.id Metric.gpuTime.id = some busy ∧ 0 < busy.estimate) ∧
      ∀ e ∈ p.entries, ∃ average,
        Leaves.mergeMetric (Metric.ofCounter k c) ((leaves.under e.command).map (·.2)) = average ∧
        e.values.get? (Metric.ofCounter k c).id = some (average.getD .unknown) ∧
        (average = none ↔ ∀ g ∈ t.groups, e.command.IsAbove g.command →
          leaves.value? g.id (Metric.ofCounter k c).id = none) ∧
        (average.isSome ↔ ∃ g ∈ t.groups, e.command.IsAbove g.command ∧
          ∃ s ∈ t.slices, t.profiles s ∧ s.group = g.id ∧ ∃ i ∈ c.samples, s.Overlaps (c.interval i)) := by
  obtain ⟨hn, hincreasing, leaves, hleaves, hentries⟩ := parts_of_compute h
  have hinc : c.Increasing := hincreasing c (List.mem_of_getElem? hk)
  have hs : c.operator.isSupported := by rw [ho]; rfl
  refine ⟨leaves, hleaves, fun g hg hsome => ?_, fun e he => ⟨_, rfl, ?_, ?_, ?_⟩⟩
  · obtain ⟨busy, hbusy, hpos⟩ := busy_of_average hleaves hn hsize hk hinc ho hg hsome
    exact ⟨busy, hbusy, positive_exact.mp hpos⟩
  · rw [hentries] at he
    exact counter_entry hsize hk hs he
  · exact average_eq_none_iff hleaves hn hsize hk hinc ho e.command
  · rw [Option.isSome_iff_ne_none, ne_eq, average_eq_none_iff hleaves hn hsize hk hinc ho]
    push Not
    have hleaf : ∀ g ∈ t.groups, leaves.value? g.id (Metric.ofCounter k c).id ≠ none ↔
        ∃ s ∈ t.slices, t.profiles s ∧ s.group = g.id ∧ ∃ i ∈ c.samples, s.Overlaps (c.interval i) := by
      intro g hg
      rw [← Option.isSome_iff_ne_none, leavesOf_counter hleaves hn hsize hg hk hs, perf?_isSome_iff hinc ho]
      simp only [Timeline.mem_prepare_ofGroup, and_assoc]
    constructor
    · rintro ⟨g, hg, ha, hvalue⟩
      exact ⟨g, hg, ha, (hleaf g hg).mp hvalue⟩
    · rintro ⟨g, hg, ha, hslice⟩
      exact ⟨g, hg, ha, (hleaf g hg).mpr hslice⟩

def Brief.timeline : Timeline where
  slices := [⟨1, 0, 20, 0⟩, ⟨1, 0, 30, 0⟩, ⟨2, 0, 50, 25⟩, ⟨2, 0, 3, 7⟩, ⟨3, 0, 0, 12⟩]
  groups := [⟨1, ⟨[0]⟩⟩, ⟨2, ⟨[0, 1]⟩⟩, ⟨3, ⟨[1]⟩⟩, ⟨4, ⟨[1, 0]⟩⟩]

def Brief.clock : Counter ℚ := ⟨"Clock", "MHz", #[10, 20, 50], #[4, 6, -1], .timeWeightedAverage⟩

theorem brief_averages : ∃ p, compute Brief.timeline [Brief.clock] = .ok p ∧
    p.entries.map (·.command.parts) = [[0], [0, 1], [1], [1, 0]] ∧
    ∃ leaves, leavesOf Brief.timeline [Brief.clock] = .ok leaves ∧ ∀ e ∈ p.entries, ∃ average,
      Leaves.mergeMetric (Metric.ofCounter 0 Brief.clock) ((leaves.under e.command).map (·.2)) = average ∧
      (average = none ↔ ∀ g ∈ Brief.timeline.groups, e.command.IsAbove g.command →
        leaves.value? g.id (Metric.ofCounter 0 Brief.clock).id = none) ∧
      (average.isSome ↔ e.command.parts = [1]) := by
  have hcommands : (compute Brief.timeline [Brief.clock]).toOption.map (·.entries.map (·.command.parts)) =
      some [[0], [0, 1], [1], [1, 0]] := by cbv
  obtain ⟨p, hp, hparts⟩ := ok_of_toOption_map hcommands
  obtain ⟨leaves, hleaves, -, haverages⟩ := averages_kept hp (by decide) (k := 0) (c := Brief.clock) rfl rfl
  refine ⟨p, hp, hparts, leaves, hleaves, fun e he => ?_⟩
  obtain ⟨average, hmerge, -, hnone, hsome⟩ := haverages e he
  have hmem : e.command.parts ∈ p.entries.map (·.command.parts) := List.mem_map_of_mem he
  have hone : ∀ parts ∈ [[0], [0, 1], [1], [1, 0]], (∃ g ∈ Brief.timeline.groups,
      CommandIndex.IsAbove ⟨parts⟩ g.command ∧ ∃ s ∈ Brief.timeline.slices, Brief.timeline.profiles s ∧
        s.group = g.id ∧ ∃ i ∈ Brief.clock.samples, s.Overlaps (Brief.clock.interval i)) ↔ parts = [1] := by
    decide
  exact ⟨average, hmerge, hnone, hsome.trans (hone _ (hparts ▸ hmem))⟩

theorem relief_average_lost : (Relief.counters Relief.evenDrift)[0]? = some Relief.clock ∧
    ∃ p leaves, compute Relief.timeline (Relief.counters Relief.evenDrift) = .ok p ∧
      leavesOf Relief.timeline (Relief.counters Relief.evenDrift) = .ok leaves ∧
      ∃ e ∈ p.entries,
        Leaves.mergeMetric (Metric.ofCounter 0 Relief.clock) ((leaves.under e.command).map (·.2)) = none ∧
        ∀ g ∈ Relief.timeline.groups, e.command.IsAbove g.command ∧
          (leaves.value? g.id (Metric.ofCounter 0 Relief.clock).id).isSome := by
  obtain ⟨p, leaves, hp, hleaves, e, he, hvalue⟩ := root_apart Relief.timeline [Relief.clock]
    (UInt32.size - 2) Relief.evenDrift
    (fun leaves _ e => (Relief.timeline.groups.map fun g =>
        (leaves.value? g.id (Metric.ofCounter 0 Relief.clock).id).isSome,
      e.command, (Leaves.mergeMetric (Metric.ofCounter 0 Relief.clock) ((leaves.under e.command).map (·.2))).isSome))
    (y := ([true, true], ⟨[0]⟩, false)) (by decide) (by decide) rfl (by cbv)
  obtain ⟨hgroups, hvalue⟩ := Prod.mk.inj hvalue
  obtain ⟨hcommand, hmerge⟩ := Prod.mk.inj hvalue
  refine ⟨rfl, p, leaves, hp, hleaves, e, he, by simpa using hmerge, fun g hg => ⟨?_, ?_⟩⟩
  · rw [hcommand]
    revert g
    decide
  · have hmem := hgroups ▸ List.mem_map_of_mem
      (f := fun g : Group => (leaves.value? g.id (Metric.ofCounter 0 Relief.clock).id).isSome) hg
    simpa using hmem

end Profile

end GpuProfile
