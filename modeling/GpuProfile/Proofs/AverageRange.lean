import GpuProfile.Proofs.ExactMerge
import GpuProfile.Proofs.SharedIdentifiers

namespace GpuProfile

def InRange (values : Finset ℚ) (x : ℚ) : Prop :=
  ∃ h : values.Nonempty, values.min' h ≤ x ∧ x ≤ values.max' h

theorem InRange.mono {values values' : Finset ℚ} {x : ℚ} (h : InRange values x) (hs : values ⊆ values') :
    InRange values' x := by
  obtain ⟨hne, hlow, hhigh⟩ := h
  exact ⟨hne.mono hs, (Finset.min'_subset hne hs).trans hlow, hhigh.trans (Finset.max'_subset hne hs)⟩

section

variable {β : Type} {weight : β → ℚ} {xs : List β} (hw : ∀ x ∈ xs, 0 ≤ weight x)

include hw

theorem weighted_sum_le {f g : β → ℚ} (h : ∀ x ∈ xs, 0 < weight x → f x ≤ g x) :
    (xs.map fun x => weight x * f x).sum ≤ (xs.map fun x => weight x * g x).sum := by
  apply List.sum_le_sum
  intro x hx
  rcases (hw x hx).eq_or_lt with hzero | hpos
  · rw [← hzero, zero_mul, zero_mul]
  · exact mul_le_mul_of_nonneg_left (h x hx hpos) hpos.le

theorem inRange_average (value : β → ℚ) (hsum : (xs.map weight).sum ≠ 0) :
    InRange ((xs.filter (0 < weight ·)).map value).toFinset
      ((xs.map fun x => weight x * value x).sum / (xs.map weight).sum) := by
  have hnonneg : 0 ≤ (xs.map weight).sum := by
    apply List.sum_nonneg
    rwa [List.forall_mem_map]
  have hpos : 0 < (xs.map weight).sum := lt_of_le_of_ne hnonneg hsum.symm
  have hmem : ∀ x ∈ xs, 0 < weight x → value x ∈ ((xs.filter (0 < weight ·)).map value).toFinset := by
    intro x hx hp
    exact List.mem_toFinset.mpr (List.mem_map_of_mem (List.mem_filter.mpr ⟨hx, by simpa using hp⟩))
  have hne : (((xs.filter (0 < weight ·)).map value).toFinset).Nonempty := by
    by_contra hempty
    apply hsum
    apply List.sum_eq_zero
    rw [List.forall_mem_map]
    intro x hx
    rcases (hw x hx).eq_or_lt with hzero | hp
    · exact hzero.symm
    · exact absurd ⟨_, hmem x hx hp⟩ hempty
  refine ⟨hne, ?_, ?_⟩
  · rw [le_div_iff₀ hpos, mul_comm, ← List.sum_map_mul_right]
    exact weighted_sum_le hw fun x hx hp => Finset.min'_le _ _ (hmem x hx hp)
  · rw [div_le_iff₀ hpos, mul_comm, ← List.sum_map_mul_right]
    exact weighted_sum_le hw fun x hx hp => Finset.le_max' _ _ (hmem x hx hp)

end

def Counter.span (c : Counter ℚ) (p : ℕ × ℚ) : ℚ :=
  ((c.interval p.1).stop - (c.interval p.1).start : ℕ) * p.2

theorem mean_exact (w : SampleWeights ℚ) (c : Counter ℚ) :
    w.mean c = ⟨(w.toList.map fun p => c.span p * c.value p.1).sum, (w.toList.map c.span).sum⟩ := by
  have hfold : ∀ (ps : List (ℕ × ℚ)) (m : Mean ℚ),
      ps.foldl (fun m p => ⟨m.weighted + c.value p.1 *
        (Quantity.ofNat ((c.interval p.1).stop - (c.interval p.1).start) : ℚ) * p.2,
          m.weight + (Quantity.ofNat ((c.interval p.1).stop - (c.interval p.1).start) : ℚ) * p.2⟩) m =
        (⟨m.weighted + (ps.map fun p => c.span p * c.value p.1).sum, m.weight + (ps.map c.span).sum⟩ : Mean ℚ) := by
    intro ps
    induction ps with
    | nil => simp
    | cons p rest ih =>
      intro m
      rw [List.foldl_cons, ih, List.map_cons, List.map_cons, List.sum_cons, List.sum_cons, Mean.mk.injEq]
      simp only [Counter.span]
      constructor
      · change m.weighted + c.value p.1 * ((_ : ℕ) : ℚ) * p.2 + _ = _
        ring
      · change m.weight + ((_ : ℕ) : ℚ) * p.2 + _ = _
        ring
  have hmean := hfold w.toList ⟨0, 0⟩
  rw [zero_add, zero_add] at hmean
  exact hmean

section

variable {t : Timeline} {c : Counter ℚ} (h : c.Increasing) {id : GroupId}

include h

theorem inRange_mean {w : SampleWeights ℚ} (hw : w ∈ (t.prepare.weights c id).sets) {x : ℚ}
    (hx : w.aggregate? c .timeWeightedAverage = some x) :
    InRange ((c.samples.filter fun i => t.Reaches id (c.interval i)).image c.value) x := by
  simp only [SampleWeights.aggregate?, mean_exact, Mean.quotient?, beq_iff_eq, Option.ite_none_left_eq_some,
    Option.some.injEq] at hx
  obtain ⟨hsum, rfl⟩ := hx
  have hreach : ∀ p ∈ w.toList, p.1 ∈ c.samples ∧ t.Reaches id (c.interval p.1) ∧ 0 ≤ p.2 := by
    intro p hp
    exact reaches_of_get? h t id hw (w.mem_toList_iff.mp hp)
  have hspan : ∀ p ∈ w.toList, 0 ≤ c.span p := by
    intro p hp
    exact mul_nonneg (Nat.cast_nonneg _) (hreach p hp).2.2
  apply (inRange_average hspan (fun p => c.value p.1) hsum).mono
  intro y hy
  obtain ⟨p, hp, rfl⟩ := List.mem_map.mp (List.mem_toFinset.mp hy)
  obtain ⟨hi, hr, -⟩ := hreach p (List.mem_filter.mp hp).1
  exact Finset.mem_image_of_mem _ (Finset.mem_filter.mpr ⟨hi, hr⟩)

theorem inRange_leaf (ho : c.operator = .timeWeightedAverage) {v : Perf ℚ} (hv : t.prepare.perf? c id = some v) :
    ∀ x ∈ [v.estimate, v.min, v.max],
      InRange ((c.samples.filter fun i => t.Reaches id (c.interval i)).image c.value) x := by
  rw [Prepared.perf?, ho] at hv
  obtain ⟨hestimate, ⟨⟨wmin, hwmin, hmin⟩, -⟩, ⟨wmax, hwmax, hmax⟩, -⟩ := Weights.band_of_perf? hv
  intro x hx
  simp only [List.mem_cons, List.not_mem_nil, or_false] at hx
  rcases hx with rfl | rfl | rfl
  · exact inRange_mean h (by simp [Weights.sets]) hestimate
  · exact inRange_mean h hwmin hmin
  · exact inRange_mean h hwmax hmax

end

namespace Leaves

def counted (metric : MetricId) (members : List (Leaf ℚ)) : List (Perf ℚ) :=
  ((members.filterMap (weigh metric)).filter (0 < ·.1)).map (·.2)

theorem inRange_mergeMetric {metric : Metric} (ho : metric.operator = .timeWeightedAverage)
    {members : List (Leaf ℚ)}
    (hbusy : ∀ leaf ∈ members, 0 ≤ ((leaf.value? Metric.gpuTime.id).map (·.estimate)).getD 0)
    {v : Perf ℚ} (h : mergeMetric metric members = some v) : ∀ f ∈ [Perf.estimate, Perf.min, Perf.max],
      InRange ((counted metric.id members).map f).toFinset (f v) := by
  have hw : ∀ w ∈ members.filterMap (weigh metric.id), 0 ≤ w.1 := by
    intro w hm
    obtain ⟨leaf, hleaf, -, he⟩ := mem_filterMap_weigh.mp hm
    exact he ▸ hbusy leaf hleaf
  obtain ⟨hsum, rfl⟩ := mergeMetric_average ho h
  have hrange : ∀ f : Perf ℚ → ℚ, InRange ((counted metric.id members).map f).toFinset
      (((members.filterMap (weigh metric.id)).map fun w => w.1 * f w.2).sum /
        ((members.filterMap (weigh metric.id)).map (·.1)).sum) := by
    intro f
    rw [counted, List.map_map]
    exact inRange_average hw (fun w => f w.2) hsum
  intro f hf
  simp only [List.mem_cons, List.not_mem_nil, or_false] at hf
  rw [weightedSum_exact]
  rcases hf with rfl | rfl | rfl
  · exact hrange Perf.estimate
  · exact hrange Perf.min
  · exact hrange Perf.max

end Leaves

namespace Profile

variable {t : Timeline} {cs : List (Counter ℚ)} {p : Profile ℚ} {k : ℕ} {c : Counter ℚ}

theorem average_in_range (h : compute t cs = .ok p) (hsize : cs.length + 2 ≤ UInt32.size) (hk : cs[k]? = some c)
    (ho : c.operator = .timeWeightedAverage) : ∃ leaves, leavesOf t cs = .ok leaves ∧
      (∀ e ∈ p.entries, ∀ v,
        Leaves.mergeMetric (Metric.ofCounter k c) ((leaves.under e.command).map (·.2)) = some v →
        e.values.get? (Metric.ofCounter k c).id = some v ∧
        ∀ f ∈ [Perf.estimate, Perf.min, Perf.max],
          InRange ((Leaves.counted (Metric.ofCounter k c).id ((leaves.under e.command).map (·.2))).map f).toFinset
            (f v)) ∧
      ∀ g ∈ t.groups, ∀ v, leaves.value? g.id (Metric.ofCounter k c).id = some v →
        ∀ x ∈ [v.estimate, v.min, v.max],
          InRange ((c.samples.filter fun i => t.Reaches g.id (c.interval i)).image c.value) x := by
  obtain ⟨hn, hinc, leaves, hleaves, hentries⟩ := parts_of_compute h
  have hs : c.operator.isSupported := by rw [ho]; rfl
  refine ⟨leaves, hleaves, fun e he v hv => ⟨?_, ?_⟩, fun g hg v hv => ?_⟩
  · rw [hentries] at he
    rw [Leaves.values_of_mem_merge he, Leaves.get?_mergeValues (nodup_metricsOf_ids hsize)]
    exact ⟨_, ofCounter_mem_metricsOf hk, hs, rfl, by rw [hv]; rfl⟩
  · apply Leaves.inRange_mergeMetric ho _ hv
    rw [List.forall_mem_map]
    intro q hq
    obtain ⟨g, hg, -, -, hvalue⟩ := group_of_mem_under hleaves hn hq
    rw [← hvalue]
    exact busy_nonneg hleaves hn hsize hg
  · rw [leavesOf_counter hleaves hn hsize hg hk hs] at hv
    exact inRange_leaf (hinc c (List.mem_of_getElem? hk)) ho hv

theorem sketch_in_range : ∃ p, compute Sketch.timeline [Sketch.occupancy, Sketch.reads] = .ok p ∧
    p.entries.length = 5 ∧ ∃ leaves, leavesOf Sketch.timeline [Sketch.occupancy, Sketch.reads] = .ok leaves ∧
      (∀ e ∈ p.entries, ∀ v,
        Leaves.mergeMetric (Metric.ofCounter 0 Sketch.occupancy) ((leaves.under e.command).map (·.2)) = some v →
        e.values.get? (Metric.ofCounter 0 Sketch.occupancy).id = some v ∧
        ∀ f ∈ [Perf.estimate, Perf.min, Perf.max],
          InRange ((Leaves.counted (Metric.ofCounter 0 Sketch.occupancy).id
            ((leaves.under e.command).map (·.2))).map f).toFinset (f v)) ∧
      ∀ g ∈ Sketch.timeline.groups, ∀ v,
        leaves.value? g.id (Metric.ofCounter 0 Sketch.occupancy).id = some v →
        ∀ x ∈ [v.estimate, v.min, v.max],
          InRange ((Sketch.occupancy.samples.filter fun i =>
            Sketch.timeline.Reaches g.id (Sketch.occupancy.interval i)).image Sketch.occupancy.value) x := by
  obtain ⟨p, hp, hlength⟩ := Sketch.computes
  exact ⟨p, hp, hlength, average_in_range hp (by decide) rfl rfl⟩

-- Weighed with a drift that has the identifier of the GPU time, the average lies above both its members.
theorem relief_out_of_range : (Relief.counters Relief.drift)[0]? = some Relief.clock ∧
    ∃ p leaves, compute Relief.timeline (Relief.counters Relief.drift) = .ok p ∧
      leavesOf Relief.timeline (Relief.counters Relief.drift) = .ok leaves ∧
      ∃ e ∈ p.entries, ∃ v,
        Leaves.mergeMetric (Metric.ofCounter 0 Relief.clock) ((leaves.under e.command).map (·.2)) = some v ∧
        e.values.get? (Metric.ofCounter 0 Relief.clock).id = some v ∧
        ∀ leaf ∈ (leaves.under e.command).map (·.2), ∀ u,
          leaf.value? (Metric.ofCounter 0 Relief.clock).id = some u → u.estimate < v.estimate := by
  obtain ⟨p, leaves, hp, hleaves, e, he, hvalue⟩ := root_apart Relief.timeline [Relief.clock]
    (UInt32.size - 2) Relief.drift
    (fun leaves _ e => (Leaves.mergeMetric (Metric.ofCounter 0 Relief.clock) ((leaves.under e.command).map (·.2)),
      e.values.get? (Metric.ofCounter 0 Relief.clock).id,
      ((leaves.under e.command).map (·.2)).map (·.value? (Metric.ofCounter 0 Relief.clock).id)))
    (y := (some ⟨6, 8, 16 / 3⟩, some ⟨6, 8, 16 / 3⟩, [some ⟨4, 4, 4⟩, some ⟨2, 0, 8 / 3⟩]))
    (by decide) (by decide) rfl (by cbv)
  obtain ⟨hmerge, hvalue⟩ := Prod.mk.inj hvalue
  obtain ⟨hget, hmembers⟩ := Prod.mk.inj hvalue
  refine ⟨rfl, p, leaves, hp, hleaves, e, he, _, hmerge, hget, fun leaf hleaf u hu => ?_⟩
  have hmem := hmembers ▸ List.mem_map_of_mem
    (f := fun leaf : Leaf ℚ => leaf.value? (Metric.ofCounter 0 Relief.clock).id) hleaf
  simp only [hu, List.mem_cons, Option.some.injEq, List.not_mem_nil, or_false] at hmem
  rcases hmem with rfl | rfl <;> norm_num

end Profile

end GpuProfile
