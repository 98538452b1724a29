import GpuProfile.Proofs.ComputableTraces
import GpuProfile.Proofs.EntryOrder
import GpuProfile.Proofs.ExactMerge
import GpuProfile.Proofs.SharedIdentifiers

namespace GpuProfile

def Crowd.timeline (n m : ℕ) : Timeline :=
  ⟨List.replicate n ⟨1, 0, 0, 30⟩ ++ List.replicate m ⟨2, 0, 0, 30⟩, [⟨1, ⟨[0]⟩⟩, ⟨2, ⟨[1]⟩⟩]⟩

def Crowd.reads : Counter ℚ := ⟨"Reads", "", #[10, 20], #[0, 6], .summation⟩

def Crowd.moreReads : Counter ℚ := { reads with values := #[0, 7] }

namespace Crowd

variable {n m : ℕ} {s : Slice} {id : GroupId}

theorem of_mem (h : s ∈ (timeline n m).slices) :
    (s = ⟨1, 0, 0, 30⟩ ∧ 0 < n) ∨ s = ⟨2, 0, 0, 30⟩ ∧ 0 < m := by
  rw [timeline, List.mem_append, List.mem_replicate, List.mem_replicate, and_comm, and_comm (b := s = _)] at h
  exact h.imp (.imp_right Nat.pos_of_ne_zero) (.imp_right Nat.pos_of_ne_zero)

theorem profiles_of_mem (h : s ∈ (timeline n m).slices) : (timeline n m).profiles s := by
  rcases of_mem h with ⟨rfl, -⟩ | ⟨rfl, -⟩ <;> rfl

theorem slices_add (n m k : ℕ) :
    (timeline n (m + k)).slices = (timeline n m).slices ++ List.replicate k ⟨2, 0, 0, 30⟩ := by
  rw [timeline, timeline, List.replicate_add, List.append_assoc]

theorem slices_filter : (timeline n m).slices.filter (timeline n m).profiles = (timeline n m).slices :=
  List.filter_eq_self.mpr fun _ hs => profiles_of_mem hs

theorem surrounds_of_mem (h : s ∈ (timeline n m).slices) : s.Surrounds (reads.interval 1) := by
  rcases of_mem h with ⟨rfl, -⟩ | ⟨rfl, -⟩ <;> decide

theorem touches_of_mem (h : s ∈ (timeline n m).slices) : s.Touches (reads.interval 1) :=
  (surrounds_of_mem h).touches (by decide)

theorem load_slices : (reads.interval 1).load (timeline n m).slices = n + m := by
  have hall : ∀ s ∈ (timeline n m).slices, decide (s.Touches (reads.interval 1)) :=
    fun s hs => decide_eq_true (touches_of_mem hs)
  rw [Interval.load, List.countP_eq_length.mpr hall, timeline, List.length_append, List.length_replicate,
    List.length_replicate]

theorem tally_slices : (reads.interval 1).tally (timeline n m).prepare.slices = (n + m) % UInt32.size := by
  rw [Interval.tally, Timeline.load_prepare_slices, slices_filter, load_slices]

theorem nodup_ids : ((timeline n m).groups.map (·.id)).Nodup := show ([1, 2] : List GroupId).Nodup by decide

theorem samples_eq : reads.samples = {1} := rfl

theorem increasing_reads : reads.Increasing :=
  Counter.increasing_of_pairwise (by decide)

theorem checks : checkTraces (timeline n m) [reads] = .ok () := by
  refine checkTraces_eq_ok_iff.mpr ⟨nodup_ids, fun s hs => ?_, fun c hc => ?_⟩
  · rcases of_mem hs with ⟨rfl, -⟩ | ⟨rfl, -⟩ <;> decide
  · rw [List.mem_singleton.mp hc]
    rfl

theorem sample_one (h : ∃ s ∈ (timeline n m).slices, s.group = id) :
    ((timeline n m).prepare.weights reads id).sample 1 = ⟨some (share ((n + m) % UInt32.size)),
      if (n + m) % UInt32.size ≤ 1 then some 1 else none, some 1⟩ := by
  obtain ⟨s, hs, hid⟩ := h
  rw [weights_sample increasing_reads _ id (samples_eq ▸ Finset.mem_singleton_self 1), tally_slices]
  refine Credit.ofSlices_of_surrounds ⟨s, ?_, touches_of_mem hs⟩ (fun s' hs' _ => ?_) _
  · exact Timeline.mem_prepare_ofGroup.mpr ⟨hs, profiles_of_mem hs, hid⟩
  · exact surrounds_of_mem (Timeline.mem_prepare_ofGroup.mp hs').1

-- A count that starts over lets each group have the sample alone.
theorem sample_of_wrapped (hn : 0 < n) (hm : 0 < m) (h : (n + m) % UInt32.size ≤ 1) {g : Group}
    (hg : g ∈ (timeline n m).groups) :
    ((timeline n m).prepare.weights reads g.id).sample 1 = ⟨some 1, some 1, some 1⟩ := by
  have hown : ∃ s ∈ (timeline n m).slices, s.group = g.id := by
    rw [timeline, List.mem_cons, List.mem_singleton] at hg
    rcases hg with rfl | rfl
    · exact ⟨_, List.mem_append_left _ (List.mem_replicate.mpr ⟨hn.ne', rfl⟩), rfl⟩
    · exact ⟨_, List.mem_append_right _ (List.mem_replicate.mpr ⟨hm.ne', rfl⟩), rfl⟩
  rw [sample_one hown, if_pos h, share_of_le_one h]

theorem perf?_of_wrapped (hn : 0 < n) (hm : 0 < m) (h : (n + m) % UInt32.size ≤ 1) {g : Group}
    (hg : g ∈ (timeline n m).groups) : (timeline n m).prepare.perf? reads g.id = some (.exact 6) := by
  have hsample := sample_of_wrapped hn hm h hg
  have hsum : ∀ w ∈ ((timeline n m).prepare.weights reads g.id).sets, w.sum reads = 6 := by
    intro w hw
    have hone : w.get? 1 = some 1 := by
      simp only [Weights.sets, List.mem_cons, List.not_mem_nil, or_false] at hw
      rcases hw with rfl | rfl | rfl
      · exact congrArg Credit.estimate hsample
      · exact congrArg Credit.min hsample
      · exact congrArg Credit.max hsample
    rw [sets_sum increasing_reads _ _ hw, samples_eq, Finset.sum_singleton, hone]
    exact mul_one _
  simp only [Weights.sets, List.forall_mem_cons, List.not_mem_nil, false_imp_iff, implies_true, and_true] at hsum
  obtain ⟨hestimate, hmin, hmax⟩ := hsum
  rw [Prepared.perf?, Weights.perf?, show reads.operator = .summation from rfl]
  simp only [SampleWeights.aggregate?, hestimate, hmin, hmax]
  rfl

theorem computes (hsize : n + m ≤ UInt32.size) : ∃ p, Profile.compute (timeline n m) [reads] = .ok p := by
  refine Profile.compute_isOk_iff.mpr (Profile.computable_iff.mpr ⟨checks, fun g _ => ?_⟩)
  have hlength : ((timeline n m).ownSlices g.id).length ≤ n + m := by
    refine (List.length_filter_le _ _).trans (le_of_eq ?_)
    rw [timeline, List.length_append, List.length_replicate, List.length_replicate]
  have hduration : ∀ d ∈ ((timeline n m).ownSlices g.id).map Slice.duration, d ≤ 30 := by
    rw [List.forall_mem_map]
    intro s hs
    rcases of_mem (List.mem_of_mem_filter hs) with ⟨rfl, -⟩ | ⟨rfl, -⟩ <;> decide
  have hsum := List.sum_le_card_nsmul _ 30 hduration
  rw [List.length_map, smul_eq_mul] at hsum
  rw [totalDuration, timelineEnd]
  simp only [UInt32.size, UInt64.size] at *
  omega

theorem entry_of_wrapped {p : Profile ℚ} (hp : Profile.compute (timeline n m) [reads] = .ok p) (hn : 0 < n) (hm : 0 < m)
    (h : (n + m) % UInt32.size ≤ 1) : ∃ e ∈ p.entries, e.command = ⟨[0]⟩ ∧
      e.values.get? (Metric.ofCounter 0 reads).id = some (.exact 6) := by
  obtain ⟨hids, -, leaves, hleaves, hentries⟩ := Profile.parts_of_compute hp
  have hgroup : ⟨1, ⟨[0]⟩⟩ ∈ (timeline n m).groups := List.mem_cons_self
  have hcommand : (⟨[0]⟩ : CommandIndex) ∈ p.entries.map (·.command) := by
    rw [hentries, Profile.mem_commands hleaves hids]
    exact ⟨_, hgroup, by decide⟩
  obtain ⟨e, he, hroot⟩ := List.mem_map.mp hcommand
  have habove : ((timeline n m).groups.toFinset.filter fun g => e.command.IsAbove g.command) = {⟨1, ⟨[0]⟩⟩} := by
    rw [hroot]
    rfl
  refine ⟨e, he, hroot, ?_⟩
  rw [Profile.sumOf_entry hleaves hids (by decide) (Profile.ofCounter_mem_metricsOf rfl) rfl (hentries ▸ he), habove,
    Finset.sum_singleton, Finset.sum_singleton, Finset.sum_singleton,
    Profile.leavesOf_counter hleaves hids (by decide) hgroup rfl rfl, perf?_of_wrapped hn hm h hgroup]
  rfl

end Crowd

end GpuProfile
