import GpuProfile.Proofs.MachineRun

namespace GpuProfile

namespace Counter

variable {α : Type} (c : Counter α)

def pairwiseCounts (slices : List Slice) : Array ℕ :=
  Array.ofFn fun i : Fin c.timestamps.size =>
    if i.val = 0 then 0
    else slices.countP fun s => ¬(c.time i < s.start ∨ s.start + s.duration < c.time (i - 1))

def touchers (slices : List Slice) (i : ℕ) : List Slice := slices.filter (·.Touches (c.interval i))

variable {c}

theorem touches_iff_not_apart {s : Slice} (h : s.Ends) (i : ℕ) : s.Touches (c.interval i) ↔
    ¬(c.time i < s.start ∨ s.start + s.duration < c.time (i - 1)) := by
  rw [not_or, not_lt, not_lt, ← h.stop_eq]
  rfl

theorem getD_concurrency_zero (h : c.Increasing) (slices : List Slice) (hsize : 0 < c.timestamps.size) :
    (c.concurrency slices).getD 0 0 = 0 := by
  have hnone : (slices.countP fun s => 0 ∈ c.touching s) = 0 := by
    rw [List.countP_eq_zero]
    intro s _
    simp [mem_touching h s]
  rw [getD_concurrency_eq_countP slices hsize, hnone, Nat.zero_mod]

theorem concurrency_eq_pairwiseCounts (h : c.Increasing) {slices : List Slice} (hends : ∀ s ∈ slices, s.Ends)
    (hfew : slices.length < UInt32.size) :
    c.concurrency slices = c.pairwiseCounts slices := by
  apply Array.ext
  · rw [size_concurrency, pairwiseCounts, Array.size_ofFn]
  · intro i hi hi'
    have hget : (c.concurrency slices)[i] = (c.concurrency slices).getD i 0 := by simp [hi]
    rw [size_concurrency] at hi
    simp only [hget, pairwiseCounts, Array.getElem_ofFn]
    by_cases hzero : i = 0
    · subst hzero
      rw [if_pos rfl, getD_concurrency_zero h slices hi]
    · have hs : i ∈ c.samples := mem_samples.mpr ⟨Nat.pos_of_ne_zero hzero, hi⟩
      rw [if_neg hzero, getD_concurrency h slices hs,
        Interval.tally_eq_load (List.countP_le_length.trans_lt hfew), Interval.load]
      apply List.countP_congr
      intro s hm
      rw [decide_eq_true_iff, decide_eq_true_iff, touches_iff_not_apart (hends s hm)]

theorem counts_pairwise (h : c.Increasing) {slices : List Slice} (hends : ∀ s ∈ slices, s.Ends)
    (hfew : slices.length < 2 ^ 32) :
    Machine.concurrency c slices = .ok (c.pairwiseCounts slices) ∧
    c.concurrency slices = c.pairwiseCounts slices := by
  have heq := concurrency_eq_pairwiseCounts h hends hfew
  rw [← heq]
  exact ⟨Machine.concurrency_eq hfew, rfl⟩

end Counter

def Relay.slices : List Slice := [⟨1, 0, 5, 20⟩, ⟨1, 0, 0, 15⟩]

def Relay.others : List Slice := [⟨2, 0, 31, 5⟩, ⟨2, 0, 10, 0⟩]

def Relay.reads : Counter ℚ := ⟨"Reads", "", #[0, 10, 20, 30], #[0, 1, 1, 1], .summation⟩

theorem Relay.reads_increasing : reads.Increasing := Counter.increasing_of_pairwise (by decide)

theorem relay_counts : Relay.reads.Increasing ∧ (∀ s ∈ Relay.slices ++ Relay.others, s.Ends) ∧
    (Relay.slices ++ Relay.others).length < 2 ^ 32 ∧
    Machine.concurrency Relay.reads (Relay.slices ++ Relay.others) = .ok #[0, 3, 3, 1] := by
  have hends : ∀ s ∈ Relay.slices ++ Relay.others, s.Ends := by decide
  have hfew : (Relay.slices ++ Relay.others).length < 2 ^ 32 := by decide
  have hplain : Relay.reads.pairwiseCounts (Relay.slices ++ Relay.others) = #[0, 3, 3, 1] := by decide
  obtain ⟨hwords, -⟩ := Counter.counts_pairwise Relay.reads_increasing hends hfew
  exact ⟨Relay.reads_increasing, hends, hfew, hplain ▸ hwords⟩

variable {α : Type} [Quantity α]

def Interval.accrue (v : Interval) (share : α) (estimate : α) (s : Slice) : α :=
  if s.Surrounds v then share
  else estimate +
    Quantity.ofNat (min v.stop s.stop - max v.start s.start) / Quantity.ofNat (v.stop - v.start) * share

namespace Credit

theorem add_estimate {v : Interval} (hv : v.start < v.stop) (count : ℕ) (credit : Credit α) (s : Slice) :
    (add v count credit s).estimate = some (v.accrue (share count) (credit.estimate.getD 0) s) := by
  by_cases hs : s.Surrounds v
  · simp only [add, Interval.accrue, hs, if_true]
  · simp only [add, Interval.accrue, hs, if_false, Weights.coverage, if_pos hv.ne']

-- Before the first slice the estimate stands at zero without being recorded.
theorem foldl_add_estimate {v : Interval} (hv : v.start < v.stop) (count : ℕ) (credit : Credit α) (xs : List Slice) :
    (xs.foldl (add v count) credit).estimate =
      if xs = [] then credit.estimate else some (xs.foldl (v.accrue (share count)) (credit.estimate.getD 0)) := by
  induction xs generalizing credit with
  | nil => rfl
  | cons s rest ih =>
    rw [List.foldl_cons, ih, add_estimate hv, Option.getD_some, if_neg (List.cons_ne_nil s rest), List.foldl_cons]
    split
    · next hnil => rw [hnil, List.foldl_nil]
    · rfl

end Credit

namespace Weights

variable {c : Counter α}

theorem sample_by_sample (h : c.Increasing) (slices : List Slice) (counts : Array ℕ) :
    Machine.weights slices c counts = .ok (ofSlices slices c counts) ∧
    (∀ i ∈ c.samples,
      (ofSlices slices c counts).estimate.get? i = (if c.touchers slices i = [] then .none
        else some ((c.touchers slices i).foldl ((c.interval i).accrue (share (counts.getD i 0))) 0)) ∧
      (ofSlices slices c counts).max.get? i = (if c.touchers slices i = [] then .none else some 1) ∧
      (ofSlices slices c counts).min.get? i =
        if counts.getD i 0 ≤ 1 ∧ ∃ s ∈ c.touchers slices i, s.Surrounds (c.interval i) then some 1 else .none) ∧
    ∀ i ∉ c.samples, (ofSlices slices c counts).estimate.get? i = .none ∧
      (ofSlices slices c counts).min.get? i = .none ∧ (ofSlices slices c counts).max.get? i = .none := by
  refine ⟨Machine.weights_eq h slices counts, fun i hi => ?_, fun i hi => ?_⟩
  · have hsample := sample_ofSlices h slices counts hi
    have hestimate := congrArg Credit.estimate hsample
    have hmin := congrArg Credit.min hsample
    have hmax := congrArg Credit.max hsample
    have hnil : c.touchers slices i = [] ↔ ¬∃ s ∈ slices, s.Touches (c.interval i) := by
      simp [Counter.touchers, List.filter_eq_nil_iff]
    have hinside : (∃ s ∈ c.touchers slices i, s.Surrounds (c.interval i)) ↔
        ∃ s ∈ slices, s.Touches (c.interval i) ∧ s.Surrounds (c.interval i) := by
      simp [Counter.touchers, and_assoc]
    simp only [sample] at hestimate hmin hmax
    refine ⟨?_, ?_, ?_⟩
    · rw [hestimate, Credit.ofSlices, Credit.foldl_add_estimate (h.start_lt_stop hi)]
      rfl
    · rw [hmax, Credit.ofSlices_max]
      simp only [hnil, ite_not]
    · rw [hmin, Credit.ofSlices_min]
      simp only [hinside]
  · have hnone := sample_ofSlices_of_not_mem h slices counts hi
    rw [sample, Credit.none, Credit.mk.injEq] at hnone
    exact hnone

theorem relay_weights : Relay.reads.Increasing ∧
    (ofSlices Relay.slices Relay.reads #[0, 2, 2, 1]).estimate.get? 2 = some (3 / 4) ∧
    (ofSlices Relay.slices Relay.reads #[0, 2, 2, 1]).min.get? 2 = .none ∧
    (ofSlices Relay.slices Relay.reads #[0, 2, 2, 1]).estimate.get? 0 = .none ∧
    (ofSlices Relay.slices.reverse Relay.reads #[]).estimate.get? 2 = some 1 ∧
    (ofSlices Relay.slices.reverse Relay.reads #[]).min.get? 2 = some 1 ∧
    (ofSlices Relay.slices.reverse Relay.reads #[]).max.get? 2 = some 1 := by
  have hi : 2 ∈ Relay.reads.samples := Counter.mem_samples.mpr ⟨by decide, by decide⟩
  have hzero : 0 ∉ Relay.reads.samples := fun h => absurd (Counter.mem_samples.mp h).1 (by decide)
  obtain ⟨-, hin, hout⟩ := sample_by_sample Relay.reads_increasing Relay.slices #[0, 2, 2, 1]
  obtain ⟨-, hback, -⟩ := sample_by_sample Relay.reads_increasing Relay.slices.reverse #[]
  obtain ⟨hestimate, -, hmin⟩ := hin 2 hi
  obtain ⟨hestimate', hmax', hmin'⟩ := hback 2 hi
  rw [hestimate, hmin, hestimate', hmin', hmax']
  exact ⟨Relay.reads_increasing, by cbv, by cbv, (hout 0 hzero).1, by cbv, by cbv, by cbv⟩

end Weights

end GpuProfile
