import GpuProfile.Proofs.ExactMerge
import GpuProfile.Proofs.ExactSamples
import GpuProfile.Proofs.SharedIdentifiers

namespace GpuProfile

namespace Perf

def Ordered (v : Perf ℚ) : Prop := v.min ≤ v.estimate ∧ v.estimate ≤ v.max

theorem ordered_exact (x : ℚ) : (exact x).Ordered := ⟨le_refl _, le_refl _⟩

theorem ordered_divide {v : Perf ℚ} (h : v.Ordered) {x : ℚ} (hx : 0 ≤ x) : (v.divide x).Ordered :=
  ⟨div_le_div_of_nonneg_right h.1 hx, div_le_div_of_nonneg_right h.2 hx⟩

end Perf

namespace Leaves

theorem ordered_sumOf {metric : MetricId} {members : List (Leaf ℚ)}
    (h : ∀ leaf ∈ members, ∀ v, leaf.value? metric = some v → v.Ordered) : (sumOf metric members).Ordered := by
  have hv : ∀ v ∈ members.filterMap (·.value? metric), v.Ordered := by
    intro v hm
    obtain ⟨leaf, hleaf, hv⟩ := List.mem_filterMap.mp hm
    exact h leaf hleaf v hv
  rw [sumOf_exact]
  exact ⟨List.sum_le_sum fun v hm => (hv v hm).1, List.sum_le_sum fun v hm => (hv v hm).2⟩

theorem ordered_weightedSum {metric : MetricId} {members : List (Leaf ℚ)}
    (h : ∀ w ∈ members.filterMap (weigh metric), 0 ≤ w.1 ∧ w.2.Ordered) :
    (weightedSum metric members).1.Ordered := by
  rw [weightedSum_exact]
  constructor
  · exact List.sum_le_sum fun w hw => mul_le_mul_of_nonneg_left (h w hw).2.1 (h w hw).1
  · exact List.sum_le_sum fun w hw => mul_le_mul_of_nonneg_left (h w hw).2.2 (h w hw).1

theorem ordered_mergeMetric {metric : Metric} {members : List (Leaf ℚ)}
    (hleaf : ∀ leaf ∈ members, ∀ v, leaf.value? metric.id = some v → v.Ordered)
    (hbusy : ∀ leaf ∈ members, 0 ≤ ((leaf.value? Metric.gpuTime.id).map (·.estimate)).getD 0) {v : Perf ℚ}
    (h : mergeMetric metric members = some v) : v.Ordered := by
  cases ho : metric.operator with
  | summation =>
    rw [mergeMetric, ho] at h
    cases h
    exact ordered_sumOf hleaf
  | timeWeightedAverage =>
    have hw : ∀ w ∈ members.filterMap (weigh metric.id), 0 ≤ w.1 ∧ w.2.Ordered := by
      intro w hm
      obtain ⟨leaf, hmem, hv, he⟩ := mem_filterMap_weigh.mp hm
      exact ⟨he ▸ hbusy leaf hmem, hleaf leaf hmem _ hv⟩
    have htime : 0 ≤ ((members.filterMap (weigh metric.id)).map (·.1)).sum := by
      apply List.sum_nonneg
      rw [List.forall_mem_map]
      exact fun w hm => (hw w hm).1
    rw [(mergeMetric_average ho h).2]
    exact Perf.ordered_divide (ordered_weightedSum hw) htime
  | unsupported =>
    rw [mergeMetric, ho] at h
    cases h

end Leaves

namespace Profile

variable {t : Timeline} {cs : List (Counter ℚ)} {leaves : Leaves ℚ}

theorem ordered_leaf (h : leavesOf t cs = .ok leaves) (hn : (t.groups.map (·.id)).Nodup)
    (hsize : cs.length + 2 ≤ UInt32.size) {metric : Metric} (hm : metric ∈ metricsOf cs)
    (hs : metric.operator.isSupported) {g : Group} (hg : g ∈ t.groups) {v : Perf ℚ}
    (hv : leaves.value? g.id metric.id = some v) : v.Ordered := by
  obtain ⟨b, -, hgpu, hwall⟩ := leavesOf_times h hn hsize hg
  rcases mem_metricsOf.mp hm with rfl | rfl | ⟨k, c, hk, rfl⟩
  · rw [hgpu] at hv
    cases hv
    exact Perf.ordered_exact _
  · rw [hwall] at hv
    cases hv
    exact Perf.ordered_exact _
  · rw [leavesOf_counter h hn hsize hg hk hs] at hv
    exact Weights.ordered_of_perf? hv

theorem estimate_within_band {p : Profile ℚ} (h : compute t cs = .ok p) (hsize : cs.length + 2 ≤ UInt32.size) :
    ∀ e ∈ p.entries, ∀ v ∈ e.values.values, v.min ≤ v.estimate ∧ v.estimate ≤ v.max := by
  obtain ⟨hn, -, leaves, hleaves, hentries⟩ := parts_of_compute h
  intro e he v hv
  rw [hentries] at he
  rw [Leaves.values_of_mem_merge he, SortedMap.mem_values_iff] at hv
  obtain ⟨id, hget⟩ := hv
  obtain ⟨metric, hm, hs, rfl, rfl⟩ := (Leaves.get?_mergeValues (nodup_metricsOf_ids hsize) _).mp hget
  cases hmerge : Leaves.mergeMetric metric ((leaves.under e.command).map (·.2)) with
  | none => exact Perf.ordered_exact _
  | some v =>
    apply Leaves.ordered_mergeMetric _ _ hmerge
    · rw [List.forall_mem_map]
      intro q hq v hv
      obtain ⟨g, hg, -, -, hvalue⟩ := group_of_mem_under hleaves hn hq
      rw [← hvalue] at hv
      exact ordered_leaf hleaves hn hsize hm hs hg hv
    · rw [List.forall_mem_map]
      intro q hq
      obtain ⟨g, hg, -, -, hvalue⟩ := group_of_mem_under hleaves hn hq
      rw [← hvalue]
      exact busy_nonneg hleaves hn hsize hg

theorem sketch_within_band : ∃ p, compute Sketch.timeline [Sketch.occupancy, Sketch.reads] = .ok p ∧
    p.entries.length = 5 ∧ ∀ e ∈ p.entries, ∀ v ∈ e.values.values, v.min ≤ v.estimate ∧ v.estimate ≤ v.max := by
  obtain ⟨p, hp, hlength⟩ := Sketch.computes
  exact ⟨p, hp, hlength, estimate_within_band hp (by decide)⟩

-- Identifiers come back, and a drift in place of the GPU time weighs one group against the other.
theorem relief_out_of_band : ∃ p, compute Relief.timeline (Relief.counters Relief.drift) = .ok p ∧
    ∃ e ∈ p.entries, ∃ v ∈ e.values.values, ¬(v.min ≤ v.estimate ∧ v.estimate ≤ v.max) := by
  obtain ⟨p, -, hp, -, e, he, hvalue⟩ := root_apart Relief.timeline [Relief.clock] (UInt32.size - 2) Relief.drift
    (fun _ _ e => e.values.get? 2) (y := some ⟨6, 8, 16 / 3⟩) (by decide) (by decide) rfl (by cbv)
  refine ⟨p, hp, e, he, _, (SortedMap.mem_values_iff _).mpr ⟨2, hvalue⟩, ?_⟩
  norm_num

end Profile

end GpuProfile
