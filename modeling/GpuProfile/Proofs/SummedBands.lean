import GpuProfile.Proofs.CrowdedIntervals
import GpuProfile.Proofs.ExactMerge

namespace GpuProfile

namespace Timeline

variable (t : Timeline)

/-- One slice alone touches the interval, strictly surrounds it, and is work of the command or of one
under it. -/
def Certain (command : CommandIndex) (v : Interval) : Prop :=
  v.load (t.slices.filter t.profiles) = 1 ∧
    ∃ s ∈ t.slices, t.profiles s ∧ s.Surrounds v ∧ ∃ g ∈ t.groups, g.id = s.group ∧ command.IsAbove g.command

instance (command : CommandIndex) (v : Interval) : Decidable (t.Certain command v) :=
  inferInstanceAs (Decidable (_ ∧ _))

end Timeline

section

variable {t : Timeline} {c : Counter ℚ} (h : c.Increasing) (hn : (t.groups.map (·.id)).Nodup)
  (command : CommandIndex) {i : ℕ} (hi : i ∈ c.samples) (hfew : t.Uncrowded (c.interval i))

include h hn hi hfew

theorem sum_min_weight : ∑ g ∈ t.groups.toFinset with command.IsAbove g.command,
    ((t.prepare.weights c g.id).min.get? i).getD 0 = if t.Certain command (c.interval i) then 1 else 0 := by
  have hv := (h.start_lt_stop hi).le
  have hload := t.load_prepare_slices (c.interval i)
  split
  · next hcert =>
    obtain ⟨hone, s, hs, hp, hsur, g₀, hg₀, hid, habove⟩ := hcert
    have hle : (c.interval i).load t.prepare.slices ≤ 1 := (hload.trans hone).le
    have hs₀ : s ∈ t.prepare.slices := Timeline.mem_prepare_slices.mpr ⟨hs, hp⟩
    rw [Finset.sum_eq_single g₀, min_weight h t g₀.id hi, hfew.tally_eq, if_pos]
    · exact ⟨hle, s, Timeline.mem_prepare_ofGroup.mpr ⟨hs, hp, hid.symm⟩, hsur.touches hv, hsur⟩
    · intro g hg hne
      rw [min_weight h t g.id hi, hfew.tally_eq, if_neg]
      rintro ⟨-, s', hs', ht', -⟩
      obtain ⟨hmem, hprof, hgroup⟩ := Timeline.mem_prepare_ofGroup.mp hs'
      have he : s' = s := Interval.eq_of_load_le_one hle (Timeline.mem_prepare_slices.mpr ⟨hmem, hprof⟩) ht' hs₀
        (hsur.touches hv)
      have hg' : g ∈ t.groups := List.mem_toFinset.mp (Finset.mem_filter.mp hg).1
      exact hne (List.inj_on_of_nodup_map hn hg' hg₀ (by rw [hid, ← he, hgroup]))
    · intro hnot
      exact absurd (Finset.mem_filter.mpr ⟨List.mem_toFinset.mpr hg₀, habove⟩) hnot
  · next hcert =>
    apply Finset.sum_eq_zero
    intro g hg
    rw [min_weight h t g.id hi, hfew.tally_eq, if_neg]
    rintro ⟨hle, s, hs, ht, hsur⟩
    obtain ⟨hmem, hprof, hgroup⟩ := Timeline.mem_prepare_ofGroup.mp hs
    have hpos := Interval.load_pos (Timeline.mem_prepare_slices.mpr ⟨hmem, hprof⟩) ht
    obtain ⟨hg', habove⟩ := Finset.mem_filter.mp hg
    refine hcert ⟨?_, s, hmem, hprof, hsur, g, List.mem_toFinset.mp hg', hgroup.symm, habove⟩
    omega

end

example : Sketch.timeline.Certain ⟨[0]⟩ ⟨5, 10⟩ ∧ ¬Sketch.timeline.Certain ⟨[0]⟩ ⟨10, 25⟩ := by decide

section

variable {t : Timeline} {c : Counter ℚ} (h : c.Increasing)

include h

theorem min_sum_under (hn : (t.groups.map (·.id)).Nodup) (hfew : ∀ i ∈ c.samples, t.Uncrowded (c.interval i))
    (command : CommandIndex) :
    ∑ g ∈ t.groups.toFinset with command.IsAbove g.command, (t.prepare.weights c g.id).min.sum c =
      ∑ i ∈ c.samples with t.Certain command (c.interval i), c.value i := by
  calc ∑ g ∈ t.groups.toFinset with command.IsAbove g.command, (t.prepare.weights c g.id).min.sum c
      = ∑ i ∈ c.samples, c.value i * ∑ g ∈ t.groups.toFinset with command.IsAbove g.command,
          ((t.prepare.weights c g.id).min.get? i).getD 0 :=
        sum_groups_eq_sum_samples h t fun g _ => by simp [Weights.sets]
    _ = ∑ i ∈ c.samples, if t.Certain command (c.interval i) then c.value i else 0 :=
        Finset.sum_congr rfl fun i hi => by rw [sum_min_weight h hn command hi (hfew i hi), mul_ite, mul_one, mul_zero]
    _ = ∑ i ∈ c.samples with t.Certain command (c.interval i), c.value i := (Finset.sum_filter _ _).symm

theorem max_sum_under (command : CommandIndex) :
    ∑ g ∈ t.groups.toFinset with command.IsAbove g.command, (t.prepare.weights c g.id).max.sum c =
      ∑ g ∈ t.groups.toFinset with command.IsAbove g.command,
        ∑ i ∈ c.samples with t.Reaches g.id (c.interval i), c.value i := by
  apply Finset.sum_congr rfl
  intro g _
  rw [max_sum h, Finset.sum_filter]
  apply Finset.sum_congr rfl
  intro i hi
  simp only [max_weight h t g.id hi, Timeline.reaches_iff, mul_ite, mul_one, mul_zero]

end

section

variable {t : Timeline} {cs : List (Counter ℚ)} {p : Profile ℚ} {k : ℕ} {c : Counter ℚ} {e : Entry ℚ}

namespace Profile

/-- At every command the lower bound sums the samples certain to belong to it, the upper bound all samples
that its groups reach, and the estimate lies between. -/
theorem summation_band (h : compute t cs = .ok p) (hsize : cs.length + 2 ≤ UInt32.size) (hk : cs[k]? = some c)
    (ho : c.operator = .summation) (hfew : ∀ i ∈ c.samples, t.Uncrowded (c.interval i)) (hv : ∀ x ∈ c.values, 0 ≤ x)
    (he : e ∈ p.entries) :
    ∃ v, e.values.get? (Metric.ofCounter k c).id = some v ∧
      v.min = ∑ i ∈ c.samples with t.Certain e.command (c.interval i), c.value i ∧
      v.max = ∑ g ∈ t.groups.toFinset with e.command.IsAbove g.command,
        ∑ i ∈ c.samples with t.Reaches g.id (c.interval i), c.value i ∧
      v.min ≤ v.estimate ∧ v.estimate ≤ v.max := by
  obtain ⟨hn, hinc, -⟩ := parts_of_compute h
  have hc : c.Increasing := hinc c (List.mem_of_getElem? hk)
  refine ⟨_, summation_entry h hsize hk ho hfew hv he, ?_⟩
  simp only
  refine ⟨min_sum_under hc hn hfew e.command, max_sum_under hc e.command, ?_, ?_⟩
  · exact Finset.sum_le_sum fun g _ => min_sum_le_estimate_sum hc t g.id hfew hv
  · exact Finset.sum_le_sum fun g _ => estimate_sum_le_max_sum hc t g.id hfew hv

theorem sketch_band : ∃ p, compute Sketch.timeline [Sketch.occupancy, Sketch.reads] = .ok p ∧
    p.entries.length = 5 ∧ ∀ e ∈ p.entries, ∃ v, e.values.get? (Metric.ofCounter 1 Sketch.reads).id = some v ∧
      v.min = ∑ i ∈ Sketch.reads.samples with
        Sketch.timeline.Certain e.command (Sketch.reads.interval i), Sketch.reads.value i ∧
      v.max = ∑ g ∈ Sketch.timeline.groups.toFinset with e.command.IsAbove g.command,
        ∑ i ∈ Sketch.reads.samples with
          Sketch.timeline.Reaches g.id (Sketch.reads.interval i), Sketch.reads.value i ∧
      v.min ≤ v.estimate ∧ v.estimate ≤ v.max := by
  obtain ⟨p, hp, hlength⟩ := Sketch.computes
  exact ⟨p, hp, hlength, fun e he => summation_band hp (by decide) rfl rfl (by decide) (by decide) he⟩

-- Counted as touched by no slice, a shared sample is in the lower bound. A counter with the identifier of another
-- one lends it its values.
theorem crowd_out_of_band :
    (∃ p, compute (Crowd.timeline (2 ^ 31) (2 ^ 31)) [Crowd.reads] = .ok p ∧ ∃ e ∈ p.entries, ∃ v,
      e.values.get? (Metric.ofCounter 0 Crowd.reads).id = some v ∧
      v.min ≠ ∑ i ∈ Crowd.reads.samples with
        (Crowd.timeline (2 ^ 31) (2 ^ 31)).Certain e.command (Crowd.reads.interval i), Crowd.reads.value i) ∧
    (apart [Crowd.reads] UInt32.size Crowd.moreReads)[0]? = some Crowd.reads ∧
    ∃ p, compute (Crowd.timeline 1 0) (apart [Crowd.reads] UInt32.size Crowd.moreReads) = .ok p ∧
      ∃ e ∈ p.entries, ∃ v, e.values.get? (Metric.ofCounter 0 Crowd.reads).id = some v ∧
        v.max ≠ ∑ g ∈ (Crowd.timeline 1 0).groups.toFinset with e.command.IsAbove g.command,
          ∑ i ∈ Crowd.reads.samples with (Crowd.timeline 1 0).Reaches g.id (Crowd.reads.interval i),
            Crowd.reads.value i := by
  refine ⟨?_, rfl, ?_⟩
  · obtain ⟨p, hp⟩ := @Crowd.computes (2 ^ 31) (2 ^ 31) (by decide)
    obtain ⟨e, he, -, hv⟩ := Crowd.entry_of_wrapped hp (by decide) (by decide) (by decide)
    have hcrowded : ¬(Crowd.timeline (2 ^ 31) (2 ^ 31)).Certain e.command (Crowd.reads.interval 1) := by
      rintro ⟨hone, -⟩
      rw [Crowd.slices_filter, Crowd.load_slices] at hone
      omega
    refine ⟨p, hp, e, he, _, hv, ?_⟩
    rw [Crowd.samples_eq, Finset.sum_filter, Finset.sum_singleton, if_neg hcrowded]
    decide
  · obtain ⟨p, -, hp, -, e, he, hvalue⟩ := root_apart (Crowd.timeline 1 0) [Crowd.reads] UInt32.size Crowd.moreReads
      (fun _ _ e => (e.command, e.values.get? (Metric.ofCounter 0 Crowd.reads).id)) (y := (⟨[0]⟩, some (.exact 7)))
      (by decide) (by decide) rfl (by cbv)
    obtain ⟨hcommand, hvalue⟩ := Prod.mk.inj hvalue
    refine ⟨p, hp, e, he, _, hvalue, ?_⟩
    rw [hcommand]
    decide +kernel

end Profile

end

end GpuProfile
