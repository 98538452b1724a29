import GpuProfile.Proofs.CommandNodes
import GpuProfile.Proofs.ExactSamples
import GpuProfile.Proofs.ValidTraces
import GpuProfile.Quantity.Exact

/-!
Merging without rounding: the value of a command is a sum, or an average weighted by GPU time, over
the groups at it and under it.
-/

namespace GpuProfile

namespace Profile

variable {α : Type} [Quantity α] {t : Timeline} {cs : List (Counter α)} {leaves : Leaves α}

theorem under_perm (h : leavesOf t cs = .ok leaves) (hn : (t.groups.map (·.id)).Nodup) (command : CommandIndex) :
    (leaves.under command).Perm ((t.groups.filter fun g => command.IsAbove g.command).filterMap fun g =>
      (leaves.get? g.id).map (g.id, ·)) := by
  have hids : ∀ g ∈ t.groups, ∀ leaf, leaves.get? g.id = some leaf → leaf.command = g.command := by
    intro g hg leaf hleaf
    have hc := (leavesOf_command? h hn).mpr hg
    rw [Leaves.command?, hleaf] at hc
    exact Option.some.inj hc
  apply (List.perm_ext_iff_of_nodup _ _).mpr
  · rintro ⟨id, leaf⟩
    rw [Leaves.under, List.mem_filter, leaves.mem_toList_iff, List.mem_filterMap]
    simp only [List.mem_filter, decide_eq_true_eq, Option.map_eq_some_iff, Prod.mk.injEq]
    constructor
    · rintro ⟨hleaf, habove⟩
      have hc : leaves.command? id = some leaf.command := by rw [Leaves.command?, hleaf]; rfl
      exact ⟨⟨id, leaf.command⟩, ⟨(leavesOf_command? h hn).mp hc, habove⟩, leaf, hleaf, rfl, rfl⟩
    · rintro ⟨g, ⟨hg, habove⟩, leaf', hleaf, rfl, rfl⟩
      rw [hids g hg leaf' hleaf]
      exact ⟨hleaf, habove⟩
  · have hkeys : (leaves.toList.map (·.1)).Nodup := leaves.nodup_keys
    exact (List.Nodup.of_map _ hkeys).filter _
  · rw [List.Nodup, List.pairwise_filterMap]
    have hfilter := (List.pairwise_map.mp hn).filter fun g : Group => decide (command.IsAbove g.command)
    refine hfilter.imp fun {g g'} hne b hb b' hb' he => ?_
    obtain ⟨leaf, -, rfl⟩ := Option.map_eq_some_iff.mp hb
    obtain ⟨leaf', -, rfl⟩ := Option.map_eq_some_iff.mp hb'
    exact hne (Prod.mk.inj he).1

theorem group_of_mem_under (h : leavesOf t cs = .ok leaves) (hn : (t.groups.map (·.id)).Nodup)
    {command : CommandIndex} {p : GroupId × Leaf α} (hp : p ∈ leaves.under command) :
    ∃ g ∈ t.groups, command.IsAbove g.command ∧ g.id = p.1 ∧
      ∀ metric, leaves.value? g.id metric = p.2.value? metric := by
  obtain ⟨g, hg, hleaf⟩ := List.mem_filterMap.mp ((under_perm h hn command).mem_iff.mp hp)
  obtain ⟨leaf, hget, rfl⟩ := Option.map_eq_some_iff.mp hleaf
  rw [List.mem_filter, decide_eq_true_eq] at hg
  refine ⟨g, hg.1, hg.2, rfl, fun metric => ?_⟩
  rw [Leaves.value?, hget]
  rfl

theorem filterMap_under_perm {β : Type} (h : leavesOf t cs = .ok leaves) (hn : (t.groups.map (·.id)).Nodup)
    (command : CommandIndex) (f : Leaf α → Option β) (f' : Group → Option β)
    (hf : ∀ g ∈ t.groups, (leaves.get? g.id).bind f = f' g) :
    (((leaves.under command).map (·.2)).filterMap f).Perm
      ((t.groups.filter fun g => command.IsAbove g.command).filterMap f') := by
  have hperm := ((under_perm h hn command).map (·.2)).filterMap f
  rw [List.map_filterMap, List.filterMap_filterMap] at hperm
  refine hperm.trans (List.Perm.of_eq (List.filterMap_congr fun g hg => ?_))
  rw [← hf g (List.mem_filter.mp hg).1]
  cases leaves.get? g.id <;> rfl

theorem parts_of_compute {p : Profile α} (h : compute t cs = .ok p) : (t.groups.map (·.id)).Nodup ∧
    (∀ c ∈ cs, c.Increasing) ∧ ∃ leaves, leavesOf t cs = .ok leaves ∧ p.entries = leaves.merge (metricsOf cs) := by
  obtain ⟨hcheck, leaves, hleaves, rfl⟩ := compute_eq_ok_iff.mp h
  exact ⟨(checkTraces_eq_ok_iff.mp hcheck).1, fun c hc => increasing_of_checkTraces hcheck hc, leaves, hleaves, rfl⟩

theorem counter_entry (hsize : cs.length + 2 ≤ UInt32.size) {k : ℕ} {c : Counter α} (hk : cs[k]? = some c)
    (hs : c.operator.isSupported) {e : Entry α} (he : e ∈ leaves.merge (metricsOf cs)) :
    e.values.get? (Metric.ofCounter k c).id = some
      ((Leaves.mergeMetric (Metric.ofCounter k c) ((leaves.under e.command).map (·.2))).getD .unknown) := by
  rw [Leaves.values_of_mem_merge he, Leaves.get?_mergeValues (nodup_metricsOf_ids hsize)]
  exact ⟨_, ofCounter_mem_metricsOf hk, hs, rfl, rfl⟩

end Profile

namespace Leaves

theorem sumOf_exact (metric : MetricId) (members : List (Leaf ℚ)) : sumOf metric members =
    ⟨((members.filterMap (·.value? metric)).map (·.estimate)).sum,
      ((members.filterMap (·.value? metric)).map (·.min)).sum,
      ((members.filterMap (·.value? metric)).map (·.max)).sum⟩ := by
  have hfold : ∀ (xs : List (Perf ℚ)) (v : Perf ℚ), xs.foldl Perf.add v =
      ⟨v.estimate + (xs.map (·.estimate)).sum, v.min + (xs.map (·.min)).sum, v.max + (xs.map (·.max)).sum⟩ := by
    intro xs
    induction xs with
    | nil => simp
    | cons x rest ih =>
      intro v
      rw [List.foldl_cons, ih]
      simp [Perf.add, add_assoc]
  rw [sumOf, hfold]
  simp [Perf.exact]

def weigh (metric : MetricId) (leaf : Leaf ℚ) : Option (ℚ × Perf ℚ) :=
  (leaf.value? metric).map fun v => (((leaf.value? Metric.gpuTime.id).map (·.estimate)).getD 0, v)

theorem mem_filterMap_weigh {metric : MetricId} {members : List (Leaf ℚ)} {w : ℚ × Perf ℚ} :
    w ∈ members.filterMap (weigh metric) ↔ ∃ leaf ∈ members, leaf.value? metric = some w.2 ∧
      w.1 = ((leaf.value? Metric.gpuTime.id).map (·.estimate)).getD 0 := by
  obtain ⟨busy, v⟩ := w
  simp only [List.mem_filterMap, weigh, Option.map_eq_some_iff, Prod.mk.injEq]
  constructor
  · rintro ⟨leaf, hleaf, v', hv, rfl, rfl⟩
    exact ⟨leaf, hleaf, hv, rfl⟩
  · rintro ⟨leaf, hleaf, hv, rfl⟩
    exact ⟨leaf, hleaf, v, hv, rfl, rfl⟩

theorem weightedSum_eq_foldl (metric : MetricId) (members : List (Leaf ℚ)) : weightedSum metric members =
    (members.filterMap (weigh metric)).foldl (fun acc w => (acc.1.add (w.2.scale w.1), acc.2 + w.1)) (.exact 0, 0) := by
  rw [weightedSum, List.foldl_filterMap]
  congr 1
  funext acc leaf
  rw [weigh]
  cases leaf.value? metric <;> rfl

theorem weightedSum_exact (metric : MetricId) (members : List (Leaf ℚ)) : weightedSum metric members =
    (⟨((members.filterMap (weigh metric)).map fun w => w.1 * w.2.estimate).sum,
      ((members.filterMap (weigh metric)).map fun w => w.1 * w.2.min).sum,
      ((members.filterMap (weigh metric)).map fun w => w.1 * w.2.max).sum⟩,
      ((members.filterMap (weigh metric)).map (·.1)).sum) := by
  have hfold : ∀ (ws : List (ℚ × Perf ℚ)) (acc : Perf ℚ × ℚ),
      ws.foldl (fun acc w => (acc.1.add (w.2.scale w.1), acc.2 + w.1)) acc =
        (⟨acc.1.estimate + (ws.map fun w => w.1 * w.2.estimate).sum,
          acc.1.min + (ws.map fun w => w.1 * w.2.min).sum,
          acc.1.max + (ws.map fun w => w.1 * w.2.max).sum⟩, acc.2 + (ws.map (·.1)).sum) := by
    intro ws
    induction ws with
    | nil => simp
    | cons w rest ih =>
      intro acc
      rw [List.foldl_cons, ih]
      simp [Perf.add, Perf.scale, add_assoc]
  rw [weightedSum_eq_foldl, hfold]
  simp [Perf.exact]

theorem mergeMetric_average {metric : Metric} (ho : metric.operator = .timeWeightedAverage)
    {members : List (Leaf ℚ)} {v : Perf ℚ} (h : mergeMetric metric members = some v) :
    ((members.filterMap (weigh metric.id)).map (·.1)).sum ≠ 0 ∧ v = (weightedSum metric.id members).1.divide
      ((members.filterMap (weigh metric.id)).map (·.1)).sum := by
  rw [mergeMetric, ho] at h
  simp only [weightedSum_exact, beq_iff_eq, Option.ite_none_left_eq_some, Option.some.injEq] at h
  rw [weightedSum_exact]
  exact ⟨h.1, h.2.symm⟩

end Leaves

def Sketch.timeline : Timeline where
  slices := [⟨1, 0, 0, 30⟩, ⟨1, 0, 20, 40⟩, ⟨2, 0, 50, 20⟩, ⟨2, 1, 52, 3⟩, ⟨9, 0, 0, 100⟩]
  groups := [⟨1, ⟨[0, 0]⟩⟩, ⟨2, ⟨[0, 1, 4]⟩⟩, ⟨3, ⟨[2]⟩⟩]

def Sketch.occupancy : Counter ℚ :=
  ⟨"Occupancy", "%", #[0, 5, 10, 25, 52, 58, 80], #[0, 20, 60, 40, 10, 30, 50], .timeWeightedAverage⟩

def Sketch.reads : Counter ℚ :=
  ⟨"Reads", "", #[0, 5, 10, 25, 52, 58, 80], #[9, 4, 3, 5, 1, 8, 2], .summation⟩

theorem Sketch.computes : ∃ p, Profile.compute timeline [occupancy, reads] = .ok p ∧ p.entries.length = 5 := by
  have hlength : (Profile.compute timeline [occupancy, reads]).toOption.map (·.entries.length) = some 5 := by cbv
  cases h : Profile.compute timeline [occupancy, reads] with
  | error e => rw [h] at hlength; cases hlength
  | ok p => rw [h] at hlength; exact ⟨p, rfl, Option.some.inj hlength⟩

theorem sum_map_filterMap {β γ : Type} (f : β → Option γ) (value : γ → ℚ) (xs : List β) :
    ((xs.filterMap f).map value).sum = (xs.map fun x => ((f x).map value).getD 0).sum := by
  induction xs with
  | nil => rfl
  | cons x rest ih =>
    rw [List.filterMap_cons, List.map_cons, List.sum_cons, ← ih]
    cases f x <;> simp

theorem sum_filter_groups {groups : List Group} (hn : (groups.map (·.id)).Nodup) (p : Group → Prop) [DecidablePred p]
    (f : Group → ℚ) : ((groups.filter fun g => p g).map f).sum = ∑ g ∈ groups.toFinset with p g, f g := by
  rw [← List.sum_toFinset _ ((List.Nodup.of_map _ hn).filter _), List.toFinset_filter]
  simp only [decide_eq_true_eq]

namespace Profile

variable {t : Timeline} {cs : List (Counter ℚ)} {p : Profile ℚ}

theorem busy_nonneg {leaves : Leaves ℚ} (h : leavesOf t cs = .ok leaves) (hn : (t.groups.map (·.id)).Nodup)
    (hsize : cs.length + 2 ≤ UInt32.size) {g : Group} (hg : g ∈ t.groups) :
    0 ≤ ((leaves.value? g.id Metric.gpuTime.id).map (·.estimate)).getD 0 := by
  obtain ⟨b, -, hgpu, -⟩ := leavesOf_times h hn hsize hg
  rw [hgpu]
  exact Nat.cast_nonneg b.gpu

theorem sumOf_entry {leaves : Leaves ℚ} (h : leavesOf t cs = .ok leaves) (hn : (t.groups.map (·.id)).Nodup)
    (hsize : cs.length + 2 ≤ UInt32.size) {metric : Metric} (hm : metric ∈ metricsOf cs)
    (ho : metric.operator = .summation) {e : Entry ℚ} (he : e ∈ leaves.merge (metricsOf cs)) :
    e.values.get? metric.id = some
      ⟨∑ g ∈ t.groups.toFinset with e.command.IsAbove g.command,
          ((leaves.value? g.id metric.id).map (·.estimate)).getD 0,
        ∑ g ∈ t.groups.toFinset with e.command.IsAbove g.command,
          ((leaves.value? g.id metric.id).map (·.min)).getD 0,
        ∑ g ∈ t.groups.toFinset with e.command.IsAbove g.command,
          ((leaves.value? g.id metric.id).map (·.max)).getD 0⟩ := by
  have hs : metric.operator.isSupported := by rw [ho]; rfl
  have hperm := filterMap_under_perm h hn e.command (·.value? metric.id)
    (fun g => leaves.value? g.id metric.id) fun g _ => rfl
  have hsum : ∀ f : Perf ℚ → ℚ,
      ((((leaves.under e.command).map (·.2)).filterMap (·.value? metric.id)).map f).sum =
        ∑ g ∈ t.groups.toFinset with e.command.IsAbove g.command, ((leaves.value? g.id metric.id).map f).getD 0 := by
    intro f
    rw [(hperm.map f).sum_eq, sum_map_filterMap, sum_filter_groups hn]
  rw [Leaves.values_of_mem_merge he]
  refine (Leaves.get?_mergeValues (nodup_metricsOf_ids hsize) _).mpr ⟨metric, hm, hs, rfl, ?_⟩
  rw [Leaves.mergeMetric, ho]
  simp only [Leaves.sumOf_exact, Option.getD_some, hsum]

theorem summation_entry (h : compute t cs = .ok p) (hsize : cs.length + 2 ≤ UInt32.size) {k : ℕ} {c : Counter ℚ}
    (hk : cs[k]? = some c) (ho : c.operator = .summation) (hfew : ∀ i ∈ c.samples, t.Uncrowded (c.interval i))
    (hv : ∀ x ∈ c.values, 0 ≤ x) {e : Entry ℚ} (he : e ∈ p.entries) :
    e.values.get? (Metric.ofCounter k c).id = some
      ⟨∑ g ∈ t.groups.toFinset with e.command.IsAbove g.command, (t.prepare.weights c g.id).estimate.sum c,
        ∑ g ∈ t.groups.toFinset with e.command.IsAbove g.command, (t.prepare.weights c g.id).min.sum c,
        ∑ g ∈ t.groups.toFinset with e.command.IsAbove g.command, (t.prepare.weights c g.id).max.sum c⟩ := by
  obtain ⟨hn, hinc, leaves, hleaves, hentries⟩ := parts_of_compute h
  rw [hentries] at he
  have hs : c.operator.isSupported := by rw [ho]; rfl
  have hc : c.Increasing := hinc c (List.mem_of_getElem? hk)
  have hleaf : ∀ f : Perf ℚ → ℚ, ∑ g ∈ t.groups.toFinset with e.command.IsAbove g.command,
      ((leaves.value? g.id (Metric.ofCounter k c).id).map f).getD 0 =
        ∑ g ∈ t.groups.toFinset with e.command.IsAbove g.command, f ⟨(t.prepare.weights c g.id).estimate.sum c,
          (t.prepare.weights c g.id).min.sum c, (t.prepare.weights c g.id).max.sum c⟩ := by
    intro f
    apply Finset.sum_congr rfl
    intro g hg
    have hg' : g ∈ t.groups := List.mem_toFinset.mp (Finset.mem_filter.mp hg).1
    rw [leavesOf_counter hleaves hn hsize hg' hk hs, perf?_summation hc t g.id hfew hv ho]
    rfl
  rw [sumOf_entry hleaves hn hsize (ofCounter_mem_metricsOf hk) ho he, hleaf, hleaf, hleaf]

end Profile

end GpuProfile
