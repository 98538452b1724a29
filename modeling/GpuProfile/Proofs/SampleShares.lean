import GpuProfile.Proofs.CrowdedIntervals
import GpuProfile.Proofs.ExactMerge
import GpuProfile.Proofs.ExactSamples

namespace GpuProfile

theorem CommandIndex.IsAbove.eq_of_depth {a b c : CommandIndex} (ha : a.IsAbove c) (hb : b.IsAbove c)
    (h : a.depth = b.depth) : a = b := by
  have hp : a.parts <+: b.parts := List.prefix_of_prefix_length_le ha.2 hb.2 (le_of_eq h)
  have he : a.parts = b.parts := hp.eq_of_length h
  cases a
  cases b
  rw [CommandIndex.mk.injEq]
  exact he

theorem Timeline.load_ofGroup_le_one {t : Timeline} (id : GroupId) {v : Interval}
    (h : ((t.slices.filter fun s => t.profiles s ∧ s.Touches v).map (·.group)).Nodup) :
    v.load (t.prepare.ofGroup id) ≤ 1 := by
  have hle := List.nodup_iff_count_le_one.mp h id
  rw [List.count, List.countP_map, List.countP_filter] at hle
  rw [Interval.load, t.prepare_ofGroup, List.countP_filter, t.prepare_slices_perm.countP_eq, List.countP_filter]
  refine le_of_eq_of_le (List.countP_congr fun s _ => ?_) hle
  simp only [Function.comp_apply, Bool.and_eq_true, decide_eq_true_eq, beq_iff_eq]
  tauto

theorem Timeline.sum_shares {t : Timeline} (hn : (t.groups.map (·.id)).Nodup) (v : Interval) :
    ∑ g ∈ t.groups.toFinset, (v.load (t.prepare.ofGroup g.id) : ℕ) * (share (v.load t.prepare.slices) : ℚ) =
      (v.load t.prepare.slices : ℕ) * share (v.load t.prepare.slices) := by
  rw [← Finset.sum_mul, ← Nat.cast_sum, sum_load_ofGroup hn]

section

variable {t : Timeline} {c : Counter ℚ} (h : c.Increasing) (hn : (t.groups.map (·.id)).Nodup) {i : ℕ}
  (hi : i ∈ c.samples) (hfew : t.Uncrowded (c.interval i))

include h hn hi hfew

theorem sum_estimate_le_one :
    ∑ g ∈ t.groups.toFinset, ((t.prepare.weights c g.id).estimate.get? i).getD 0 ≤ 1 := by
  calc ∑ g ∈ t.groups.toFinset, ((t.prepare.weights c g.id).estimate.get? i).getD 0
      ≤ ∑ g ∈ t.groups.toFinset, ((c.interval i).load (t.prepare.ofGroup g.id) : ℕ) *
          (share ((c.interval i).load t.prepare.slices) : ℚ) :=
        Finset.sum_le_sum fun g _ => hfew.tally_eq ▸ estimate_le h t g.id hi
    _ = ((c.interval i).load t.prepare.slices : ℕ) * (share ((c.interval i).load t.prepare.slices) : ℚ) :=
        Timeline.sum_shares hn (c.interval i)
    _ ≤ 1 := mul_share_le_one (le_refl _)

theorem sum_estimate_eq_one (hany : ∃ s ∈ t.slices, t.profiles s ∧ s.Touches (c.interval i))
    (hall : ∀ s ∈ t.slices, t.profiles s → s.Touches (c.interval i) → s.Surrounds (c.interval i))
    (hgroups : ((t.slices.filter fun s => t.profiles s ∧ s.Touches (c.interval i)).map (·.group)).Nodup) :
    ∑ g ∈ t.groups.toFinset, ((t.prepare.weights c g.id).estimate.get? i).getD 0 = 1 := by
  have hpos : 0 < (c.interval i).load t.prepare.slices := by
    obtain ⟨s, hs, hp, ht⟩ := hany
    exact Interval.load_pos (Timeline.mem_prepare_slices.mpr ⟨hs, hp⟩) ht
  have hsur : ∀ id, ∀ s ∈ t.prepare.ofGroup id, s.Touches (c.interval i) → s.Surrounds (c.interval i) := by
    intro id s hs ht
    obtain ⟨hmem, hp, -⟩ := Timeline.mem_prepare_ofGroup.mp hs
    exact hall s hmem hp ht
  calc ∑ g ∈ t.groups.toFinset, ((t.prepare.weights c g.id).estimate.get? i).getD 0
      = ∑ g ∈ t.groups.toFinset, ((c.interval i).load (t.prepare.ofGroup g.id) : ℕ) *
          (share ((c.interval i).load t.prepare.slices) : ℚ) :=
        Finset.sum_congr rfl fun g _ => hfew.tally_eq ▸
          estimate_of_surrounds h t g.id hi (hsur g.id) (Timeline.load_ofGroup_le_one g.id hgroups)
    _ = ((c.interval i).load t.prepare.slices : ℕ) * (share ((c.interval i).load t.prepare.slices) : ℚ) :=
        Timeline.sum_shares hn (c.interval i)
    _ = 1 := mul_share hpos

end

section

variable {t : Timeline} {c : Counter ℚ} (h : c.Increasing) (hv : ∀ x ∈ c.values, 0 ≤ x)

include h hv

theorem estimate_sum_nonneg (id : GroupId) : 0 ≤ (t.prepare.weights c id).estimate.sum c := by
  rw [estimate_sum h]
  exact Finset.sum_nonneg fun i hi => mul_nonneg (Counter.value_nonneg hv i) (estimate_nonneg h t id hi)

theorem sum_estimate_sum_le (hn : (t.groups.map (·.id)).Nodup) (hfew : ∀ i ∈ c.samples, t.Uncrowded (c.interval i)) :
    ∑ g ∈ t.groups.toFinset, (t.prepare.weights c g.id).estimate.sum c ≤ ∑ i ∈ c.samples, c.value i := by
  calc ∑ g ∈ t.groups.toFinset, (t.prepare.weights c g.id).estimate.sum c
      = ∑ i ∈ c.samples, c.value i *
          ∑ g ∈ t.groups.toFinset, ((t.prepare.weights c g.id).estimate.get? i).getD 0 :=
        sum_groups_eq_sum_samples h t fun g _ => by simp [Weights.sets]
    _ ≤ ∑ i ∈ c.samples, c.value i := by
        apply Finset.sum_le_sum
        intro i hi
        exact mul_le_of_le_one_right (Counter.value_nonneg hv i) (sum_estimate_le_one h hn hi (hfew i hi))

end

-- Commands of one depth have no group in common.
theorem sum_roots_le {groups : Finset Group} {f : Group → ℚ} (hf : ∀ g, 0 ≤ f g) {commands : List CommandIndex}
    (hn : commands.Nodup) {depth : ℕ} (hd : ∀ command ∈ commands, command.depth = depth) :
    (commands.map fun command => ∑ g ∈ groups with command.IsAbove g.command, f g).sum ≤ ∑ g ∈ groups, f g := by
  have hcard : ∀ g : Group, (commands.toFinset.filter fun command => command.IsAbove g.command).card ≤ 1 := by
    intro g
    apply Finset.card_le_one.mpr
    intro a ha b hb
    rw [Finset.mem_filter, List.mem_toFinset] at ha hb
    exact ha.2.eq_of_depth hb.2 ((hd a ha.1).trans (hd b hb.1).symm)
  calc (commands.map fun command => ∑ g ∈ groups with command.IsAbove g.command, f g).sum
      = ∑ command ∈ commands.toFinset, ∑ g ∈ groups with command.IsAbove g.command, f g :=
        (List.sum_toFinset _ hn).symm
    _ = ∑ g ∈ groups, ∑ command ∈ commands.toFinset with command.IsAbove g.command, f g := by
        simp only [Finset.sum_filter]
        exact Finset.sum_comm
    _ ≤ ∑ g ∈ groups, f g := by
        apply Finset.sum_le_sum
        intro g _
        rw [Finset.sum_const]
        have hle : ((commands.toFinset.filter fun command => command.IsAbove g.command).card : ℚ) ≤ 1 := by
          exact_mod_cast hcard g
        rw [nsmul_eq_mul]
        exact mul_le_of_le_one_left (hf g) hle

namespace Profile

variable {t : Timeline} {cs : List (Counter ℚ)} {c : Counter ℚ}

theorem sum_root_estimates_le {p : Profile ℚ} (h : compute t cs = .ok p) (hsize : cs.length + 2 ≤ UInt32.size) {k : ℕ}
    (hk : cs[k]? = some c) (ho : c.operator = .summation) (hfew : ∀ i ∈ c.samples, t.Uncrowded (c.interval i))
    (hv : ∀ x ∈ c.values, 0 ≤ x) :
    ((p.entries.filter (·.command.depth = 1)).map fun e =>
      ((e.values.get? (Metric.ofCounter k c).id).map (·.estimate)).getD 0).sum ≤ ∑ i ∈ c.samples, c.value i := by
  obtain ⟨hn, hinc, leaves, -, hentries⟩ := parts_of_compute h
  have hc : c.Increasing := hinc c (List.mem_of_getElem? hk)
  have hvalue : ∀ e ∈ p.entries.filter (·.command.depth = 1),
      ((e.values.get? (Metric.ofCounter k c).id).map (·.estimate)).getD 0 =
        ∑ g ∈ t.groups.toFinset with e.command.IsAbove g.command, (t.prepare.weights c g.id).estimate.sum c := by
    intro e he
    rw [summation_entry h hsize hk ho hfew hv (List.mem_filter.mp he).1]
    rfl
  have hcommands : ((p.entries.filter (·.command.depth = 1)).map (·.command)).Nodup := by
    rw [hentries]
    exact (leaves.nodup_merge_commands _).sublist (List.filter_sublist.map _)
  have hdepth : ∀ command ∈ (p.entries.filter (·.command.depth = 1)).map (·.command), command.depth = 1 := by
    rw [List.forall_mem_map]
    intro e he
    simpa using (List.mem_filter.mp he).2
  calc ((p.entries.filter (·.command.depth = 1)).map fun e =>
        ((e.values.get? (Metric.ofCounter k c).id).map (·.estimate)).getD 0).sum
      = (((p.entries.filter (·.command.depth = 1)).map (·.command)).map fun command =>
          ∑ g ∈ t.groups.toFinset with command.IsAbove g.command, (t.prepare.weights c g.id).estimate.sum c).sum := by
        rw [List.map_map, List.map_congr_left hvalue]
        rfl
    _ ≤ ∑ g ∈ t.groups.toFinset, (t.prepare.weights c g.id).estimate.sum c :=
        sum_roots_le (fun g => estimate_sum_nonneg hc hv g.id) hcommands hdepth
    _ ≤ ∑ i ∈ c.samples, c.value i := sum_estimate_sum_le hc hv hn hfew

/-- The groups together get at most the whole of a sample, and get it all where groups with one slice
each surround its interval. So the root commands add up to at most what was sampled. -/
theorem samples_counted_once (h : checkTraces t cs = .ok ()) (hc : c ∈ cs) :
    (∀ i ∈ c.samples, t.Uncrowded (c.interval i) →
      ∑ g ∈ t.groups.toFinset, ((t.prepare.weights c g.id).estimate.get? i).getD 0 ≤ 1 ∧
      ((∃ s ∈ t.slices, t.profiles s ∧ s.Touches (c.interval i)) →
        (∀ s ∈ t.slices, t.profiles s → s.Touches (c.interval i) → s.Surrounds (c.interval i)) →
        ((t.slices.filter fun s => t.profiles s ∧ s.Touches (c.interval i)).map (·.group)).Nodup →
        ∑ g ∈ t.groups.toFinset, ((t.prepare.weights c g.id).estimate.get? i).getD 0 = 1)) ∧
    ∀ p k, compute t cs = .ok p → cs.length + 2 ≤ UInt32.size → cs[k]? = some c → c.operator = .summation →
      (∀ i ∈ c.samples, t.Uncrowded (c.interval i)) → (∀ x ∈ c.values, 0 ≤ x) →
      (∀ e ∈ p.entries, (e.values.get? (Metric.ofCounter k c).id).isSome) ∧
      ((p.entries.filter (·.command.depth = 1)).map fun e =>
        ((e.values.get? (Metric.ofCounter k c).id).map (·.estimate)).getD 0).sum ≤ ∑ i ∈ c.samples, c.value i := by
  have hn := (checkTraces_eq_ok_iff.mp h).1
  have hinc : c.Increasing := increasing_of_checkTraces h hc
  constructor
  · intro i hi hfew
    exact ⟨sum_estimate_le_one hinc hn hi hfew, sum_estimate_eq_one hinc hn hi hfew⟩
  · intro p k hp hsize hk ho hfew hv
    refine ⟨fun e he => ?_, sum_root_estimates_le hp hsize hk ho hfew hv⟩
    rw [summation_entry hp hsize hk ho hfew hv he]
    rfl

theorem sketch_samples : checkTraces Sketch.timeline [Sketch.occupancy, Sketch.reads] = .ok () ∧
    ∑ g ∈ Sketch.timeline.groups.toFinset,
      ((Sketch.timeline.prepare.weights Sketch.reads g.id).estimate.get? 5).getD 0 = 1 ∧
    ∃ p, compute Sketch.timeline [Sketch.occupancy, Sketch.reads] = .ok p ∧
      ((p.entries.filter (·.command.depth = 1)).map fun e =>
        ((e.values.get? (Metric.ofCounter 1 Sketch.reads).id).map (·.estimate)).getD 0).sum ≤
          ∑ i ∈ Sketch.reads.samples, Sketch.reads.value i := by
  have hcheck : checkTraces Sketch.timeline [Sketch.occupancy, Sketch.reads] = .ok () := by decide
  obtain ⟨hsamples, hroots⟩ := samples_counted_once hcheck (show Sketch.reads ∈ _ by simp)
  obtain ⟨p, hp, -⟩ := Sketch.computes
  refine ⟨hcheck, (hsamples 5 (by decide) (by decide)).2 (by decide) (by decide) (by decide), p, hp, ?_⟩
  exact (hroots p 1 hp (by decide) rfl rfl (by decide) (by decide)).2

-- When the count starts over both groups have the whole sample. A counter with the identifier of another one
-- lends it its values.
theorem crowd_counted_twice :
    (checkTraces (Crowd.timeline (2 ^ 31) (2 ^ 31)) [Crowd.reads] = .ok () ∧
      ∑ g ∈ (Crowd.timeline (2 ^ 31) (2 ^ 31)).groups.toFinset,
        (((Crowd.timeline (2 ^ 31) (2 ^ 31)).prepare.weights Crowd.reads g.id).estimate.get? 1).getD 0 = 2) ∧
    (apart [Crowd.reads] UInt32.size Crowd.moreReads)[0]? = some Crowd.reads ∧
    ∃ p, compute (Crowd.timeline 1 0) (apart [Crowd.reads] UInt32.size Crowd.moreReads) = .ok p ∧
      ∑ i ∈ Crowd.reads.samples, Crowd.reads.value i < ((p.entries.filter (·.command.depth = 1)).map fun e =>
        ((e.values.get? (Metric.ofCounter 0 Crowd.reads).id).map (·.estimate)).getD 0).sum := by
  have hestimate : ∀ g ∈ (Crowd.timeline (2 ^ 31) (2 ^ 31)).groups,
      (((Crowd.timeline (2 ^ 31) (2 ^ 31)).prepare.weights Crowd.reads g.id).estimate.get? 1).getD 0 = 1 := by
    intro g hg
    have hget := congrArg Credit.estimate (Crowd.sample_of_wrapped (by decide) (by decide) (by decide) hg)
    exact congrArg (·.getD 0) hget
  refine ⟨⟨Crowd.checks, ?_⟩, rfl, ?_⟩
  · have htwo : (Crowd.timeline (2 ^ 31) (2 ^ 31)).groups.toFinset.card = 2 := rfl
    rw [Finset.sum_congr rfl fun g hg => hestimate g (List.mem_toFinset.mp hg), Finset.sum_const, htwo]
    norm_num
  · obtain ⟨p, -, hp, -, hsum⟩ := result_apart (Crowd.timeline 1 0) [Crowd.reads] UInt32.size Crowd.moreReads
      (fun _ entries => ((entries.filter (·.command.depth = 1)).map fun e =>
        ((e.values.get? (Metric.ofCounter 0 Crowd.reads).id).map (·.estimate)).getD 0).sum) (y := 7)
      (by decide) (by decide) rfl (by cbv)
    refine ⟨p, hp, ?_⟩
    rw [hsum, Crowd.samples_eq, Finset.sum_singleton]
    decide

end Profile

end GpuProfile
