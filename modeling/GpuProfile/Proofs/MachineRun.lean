import GpuProfile.Proofs.ComputableTraces
import GpuProfile.Proofs.ExactMerge
import GpuProfile.Profile.Machine

namespace GpuProfile

theorem foldlM_eq_ok {ε β σ : Type} {f : σ → β → Except ε σ} {g : σ → β → σ} {xs : List β}
    (h : ∀ x, ∀ b ∈ xs, f x b = .ok (g x b)) (x : σ) : xs.foldlM f x = .ok (xs.foldl g x) := by
  induction xs generalizing x with
  | nil => rfl
  | cons b rest ih =>
    rw [List.foldlM_cons, h x b List.mem_cons_self, List.foldl_cons]
    exact ih (fun x b hb => h x b (List.mem_cons_of_mem _ hb)) (g x b)

theorem mapM_eq_ok {ε β γ : Type} {f : β → Except ε γ} {g : β → γ} {xs : List β}
    (h : ∀ b ∈ xs, f b = .ok (g b)) : xs.mapM f = .ok (xs.map g) := by
  induction xs with
  | nil => rfl
  | cons b rest ih =>
    rw [List.mapM_cons, h b List.mem_cons_self, ih fun b hb => h b (List.mem_cons_of_mem _ hb)]
    rfl

namespace Machine

variable {α σ : Type} {c : Counter α}

theorem difference_eq {a b : ℕ} (h : b ≤ a) : difference a b = .ok (a - b) := if_pos h

theorem sum_eq {limit a b : ℕ} (h : a + b < limit) : sum limit a b = .ok (a + b) := if_pos h

theorem time_eq {i : ℕ} (hi : i < c.timestamps.size) : time c i = .ok (c.time i) := if_pos hi

theorem interval_eq {i : ℕ} (hi : i ∈ c.samples) : interval c i = .ok (c.interval i) := by
  rw [Counter.mem_samples] at hi
  have hbefore : i - 1 < c.timestamps.size := by omega
  rw [interval, difference_eq hi.1, time_eq hi.2]
  simp only [bind, Except.bind, time_eq hbefore]
  rfl

theorem visit_eq (s : Slice) (step : σ → ℕ → Interval → Except Halt σ) {xs : List ℕ}
    (hx : ∀ i ∈ xs, i ∈ c.samples) (x : σ) : visit c s step xs x =
      (xs.takeWhile fun i => decide ((c.interval i).start ≤ s.stop)).foldlM (fun x i => step x i (c.interval i)) x := by
  induction xs generalizing x with
  | nil => rfl
  | cons i rest ih =>
    rw [List.forall_mem_cons] at hx
    rw [visit, interval_eq hx.1]
    by_cases hi : s.stop < (c.interval i).start
    · rw [List.takeWhile_cons_of_neg (by simpa using hi)]
      simp only [bind, Except.bind, hi, if_true]
      rfl
    · rw [List.takeWhile_cons_of_pos (by simpa using hi), List.foldlM_cons]
      simp only [bind, Except.bind, hi, if_false]
      cases step x i (c.interval i) with
      | error halt => rfl
      | ok x => exact ih hx.2 x

theorem mem_samples_of_mem_candidates {s : Slice} {i : ℕ} (hi : i ∈ candidates c s) : i ∈ c.samples := by
  rw [candidates, List.mem_range'_1] at hi
  have hfirst : 1 ≤ c.firstCandidate s.start := le_max_left _ _
  exact Counter.mem_samples.mpr ⟨by omega, by omega⟩

theorem mem_samples_of_mem_touching {s : Slice} {i : ℕ} (hi : i ∈ c.touching s) : i ∈ c.samples :=
  mem_samples_of_mem_candidates (List.takeWhile_subset _ hi)

theorem visit_candidates (s : Slice) (step : σ → ℕ → Interval → Except Halt σ) (x : σ) :
    visit c s step (candidates c s) x = (c.touching s).foldlM (fun x i => step x i (c.interval i)) x :=
  visit_eq s step (fun _ hi => mem_samples_of_mem_candidates hi) x

theorem countUp_eq {counts : Array ℕ} {i : ℕ} (hi : i < counts.size) (hfits : counts.getD i 0 + 1 < UInt32.size) :
    countUp counts i = .ok (counts.modify i nextCount) := by
  rw [Array.getD_eq_getD_getElem?, Array.getElem?_eq_getElem hi, Option.getD_some] at hfits
  rw [countUp, dif_pos hi, sum_eq hfits]
  have hset : counts.set i (counts[i] + 1) = counts.modify i nextCount := by
    apply Array.ext
    · simp
    · intro j hj hj'
      by_cases he : i = j
      · subst he
        simp [Array.getElem_modify, nextCount, Nat.mod_eq_of_lt hfits]
      · simp [Array.getElem_modify, Array.getElem_set, he]
  rw [← hset]
  rfl

theorem foldlM_countUp {xs : List ℕ} (hn : xs.Nodup) {counts : Array ℕ}
    (h : ∀ i ∈ xs, i < counts.size ∧ counts.getD i 0 + 1 < UInt32.size) :
    xs.foldlM countUp counts = .ok (xs.foldl (fun counts i => counts.modify i nextCount) counts) := by
  induction xs generalizing counts with
  | nil => rfl
  | cons i rest ih =>
    rw [List.forall_mem_cons] at h
    obtain ⟨hnot, hrest⟩ := List.nodup_cons.mp hn
    rw [List.foldlM_cons, countUp_eq h.1.1 h.1.2]
    apply ih hrest
    intro j hj
    obtain ⟨hsize, hfits⟩ := h.2 j hj
    have hne : i ≠ j := fun he => hnot (he ▸ hj)
    rw [Array.getD_eq_getD_getElem?, Array.getElem?_eq_getElem hsize, Option.getD_some] at hfits
    simpa [hsize, Array.getElem_modify, hne] using hfits

-- What is left to visit bounds how far a count may still rise.
theorem foldlM_visit_countUp {slices : List Slice} {counts : Array ℕ} (hsize : counts.size = c.timestamps.size)
    (h : ∀ i ∈ c.samples, counts.getD i 0 + slices.length < UInt32.size) :
    slices.foldlM (fun counts s => visit c s (fun counts i _ => countUp counts i) (candidates c s) counts) counts =
      .ok (slices.foldl (fun counts s => (c.touching s).foldl (fun counts i => counts.modify i nextCount) counts)
        counts) := by
  induction slices generalizing counts with
  | nil => rfl
  | cons s rest ih =>
    have hone : ∀ i ∈ c.touching s, i < counts.size ∧ counts.getD i 0 + 1 < UInt32.size := by
      intro i hi
      have hs := mem_samples_of_mem_touching hi
      have hfits := h i hs
      rw [List.length_cons] at hfits
      exact ⟨hsize ▸ (Counter.mem_samples.mp hs).2, by omega⟩
    rw [List.foldlM_cons, visit_candidates, foldlM_countUp (Counter.nodup_touching s) hone]
    apply ih
    · rw [size_foldl_modify, hsize]
    · intro i hi
      have hfits := h i hi
      have hstep := getD_foldl_modify nextCount (Counter.nodup_touching (c := c) s) counts
        (hsize ▸ (Counter.mem_samples.mp hi).2)
      have hnext : nextCount (counts.getD i 0) ≤ counts.getD i 0 + 1 := Nat.mod_le _ _
      rw [List.length_cons] at hfits
      by_cases hm : i ∈ c.touching s
      · rw [hstep, if_pos hm]
        omega
      · rw [hstep, if_neg hm]
        omega

theorem concurrency_eq {slices : List Slice} (h : slices.length < UInt32.size) :
    concurrency c slices = .ok (c.concurrency slices) := by
  apply foldlM_visit_countUp
  · exact Array.size_replicate
  · intro i hi
    simp [(Counter.mem_samples.mp hi).2, h]

variable [Quantity α]

theorem value_eq {i : ℕ} (hlength : c.timestamps.size = c.values.size) (hi : i ∈ c.samples) :
    value c i = .ok (c.value i) := if_pos (hlength ▸ (Counter.mem_samples.mp hi).2)

theorem coverage_eq {v : Interval} {s : Slice} (hv : v.start < v.stop) (ht : s.Touches v) :
    (coverage v s : Except Halt α) = .ok (Weights.coverage v s) := by
  have hs := s.start_le_stop
  have hcovered : Nat.max v.start s.start ≤ Nat.min v.stop s.stop :=
    le_min (max_le hv.le ht.1) (max_le ht.2 hs)
  have hlength : v.stop - v.start ≠ 0 := by omega
  rw [coverage, difference_eq hcovered, difference_eq hv.le, Weights.coverage, if_pos (by omega)]
  simp only [bind, Except.bind, hlength, if_false]

theorem credit_eq {s : Slice} {i : ℕ} {v : Interval} (hv : v.start < v.stop) (ht : s.Touches v) (count : ℕ)
    (w : Weights α) : credit s i v count w = .ok (w.credit s i v count) := by
  by_cases hs : s.start < v.start ∧ v.stop < s.stop
  · rw [credit, Weights.credit, if_pos hs, if_pos hs]
  · rw [credit, Weights.credit, if_neg hs, if_neg hs, coverage_eq hv ht]
    rfl

theorem weights_eq (h : c.Increasing) (slices : List Slice) (counts : Array ℕ) :
    weights slices c counts = .ok (Weights.ofSlices slices c counts) := by
  apply foldlM_eq_ok
  intro w s _
  rw [visit_candidates]
  apply foldlM_eq_ok
  intro w i hi
  obtain ⟨hs, ht⟩ := (Counter.mem_touching h s).mp hi
  exact credit_eq (h.start_lt_stop hs) ht _ w

section

variable {w : SampleWeights α} (hkeys : ∀ p ∈ w.toList, p.1 ∈ c.samples) (hlength : c.timestamps.size = c.values.size)

include hkeys hlength

theorem sampleSum_eq : sampleSum w c = .ok (w.sum c) := by
  have hterms : (w.toList.mapM fun p => do
      let x ← value c p.1
      Except.ok (ε := Halt) (x * p.2)) = .ok (w.toList.map fun p => c.value p.1 * p.2) := by
    apply mapM_eq_ok
    intro p hp
    rw [value_eq hlength (hkeys p hp)]
    rfl
  rw [sampleSum, hterms]
  rfl

theorem sampleMean_eq (h : c.Increasing) : sampleMean w c = .ok (w.mean c) := by
  apply foldlM_eq_ok
  rintro m ⟨i, weight⟩ hp
  have hi := hkeys _ hp
  dsimp only
  rw [interval_eq hi, value_eq hlength hi]
  simp only [bind, Except.bind, difference_eq (h.start_lt_stop hi).le]

theorem aggregate?_eq (h : c.Increasing) (op : Operator) : aggregate? w c op = .ok (w.aggregate? c op) := by
  cases op with
  | summation => rw [aggregate?, sampleSum_eq hkeys hlength]; rfl
  | timeWeightedAverage => rw [aggregate?, sampleMean_eq hkeys hlength h]; rfl
  | unsupported => rfl

end

theorem mem_samples_of_weights (h : c.Increasing) (slices : List Slice) (counts : Array ℕ) :
    (∀ p ∈ (Weights.ofSlices slices c counts).estimate.toList, p.1 ∈ c.samples) ∧
      (∀ p ∈ (Weights.ofSlices slices c counts).min.toList, p.1 ∈ c.samples) ∧
      ∀ p ∈ (Weights.ofSlices slices c counts).max.toList, p.1 ∈ c.samples := by
  apply Weights.forall_of_sample_ne_none
  intro i hsome
  by_contra hi
  exact hsome (Weights.sample_ofSlices_of_not_mem h slices counts hi)

theorem perf?_eq (h : c.Increasing) (hlength : c.timestamps.size = c.values.size) (slices : List Slice)
    (counts : Array ℕ) (op : Operator) : perf? (Weights.ofSlices slices c counts) c op =
      .ok ((Weights.ofSlices slices c counts).perf? c op) := by
  obtain ⟨hestimate, hmin, hmax⟩ := mem_samples_of_weights h slices counts
  rw [perf?, aggregate?_eq hestimate hlength h, aggregate?_eq hmin hlength h, aggregate?_eq hmax hlength h,
    Weights.perf?]
  cases (Weights.ofSlices slices c counts).estimate.aggregate? c op <;> rfl

theorem addBusy_eq {b : Busy} (hb : b.wall ≤ b.gpu) (s : Slice) : addBusy b s = (b.add s).mapError .defect := by
  have hs := s.start_le_stop
  have hstop : s.stop ≤ s.start + s.duration := min_le_left _ _
  rw [addBusy, Busy.add]
  split
  · rfl
  · next hfits =>
    split
    · rfl
    · next hnew =>
      have hmore : max s.start b.reach ≤ s.stop := by omega
      have hwall : b.wall + (s.stop - max s.start b.reach) < timelineEnd := by omega
      rw [difference_eq hmore]
      simp only [bind, Except.bind, sum_eq hwall]
      rfl

theorem foldlM_addBusy {slices : List Slice} {b : Busy} (hb : b.wall ≤ b.gpu) :
    slices.foldlM addBusy b = (Busy.addAll slices b).mapError .defect := by
  induction slices generalizing b with
  | nil => rfl
  | cons s rest ih =>
    rw [List.foldlM_cons, addBusy_eq hb, Busy.addAll, Busy.add_eq]
    split
    · rfl
    · have hstop : s.stop ≤ s.start + s.duration := min_le_left _ _
      have hnext : (b.extend s).wall ≤ (b.extend s).gpu := by
        simp only [Busy.extend]
        omega
      exact ih hnext

theorem setTimes_eq (p : Prepared) (ids : List GroupId) (leaves : Leaves α) :
    setTimes p ids leaves = match leaves.setTimes p ids with
      | (_, some d) => .error (.defect d)
      | (leaves, none) => .ok leaves := by
  induction ids generalizing leaves with
  | nil => rfl
  | cons id rest ih =>
    rw [setTimes, foldlM_addBusy (le_refl _), Leaves.setTimes]
    cases hb : Busy.ofSlices (p.ofGroup id) with
    | error d =>
      rw [Busy.ofSlices] at hb
      rw [hb]
      rfl
    | ok b =>
      rw [Busy.ofSlices] at hb
      rw [hb]
      exact ih _

omit [Quantity α] in
theorem metric_eq {place : ℕ} (h : 2 + place < 2 ^ 31) (c : Counter α) :
    metric place c = .ok (Metric.ofCounter place c) := by
  have hlimit : Int32.maxValue.toNatClampNeg + 1 = 2 ^ 31 := by decide
  have hid : Int32.ofNat (2 + place) = (Metric.ofCounter place c).id := by rw [Metric.ofCounter_id, Nat.add_comm]
  rw [metric, sum_eq (by rwa [hlimit])]
  simp only [bind, Except.bind, hid]
  rfl

theorem setCounter_eq (h : c.Increasing) (hlength : c.timestamps.size = c.values.size) {p : Prepared}
    (hslices : p.slices.length < UInt32.size) (metric : Metric) (leaves : Leaves α) :
    setCounter p metric c leaves = .ok (leaves.setCounter p metric c) := by
  rw [setCounter, concurrency_eq hslices]
  apply foldlM_eq_ok
  intro leaves id _
  rw [weights_eq h]
  simp only [bind, Except.bind, perf?_eq h hlength]

theorem setCounters_eq {cs : List (Counter α)} (h : ∀ c ∈ cs, c.Increasing ∧ c.timestamps.size = c.values.size)
    {p : Prepared} (hslices : p.slices.length < UInt32.size) {place : ℕ} (hplace : place + cs.length ≤ 2 ^ 31 - 2)
    (leaves : Leaves α) :
    setCounters p place cs leaves = .ok (counterMetrics place cs, leaves.setCounters p place cs) := by
  induction cs generalizing place leaves with
  | nil => rfl
  | cons c rest ih =>
    rw [List.forall_mem_cons] at h
    rw [List.length_cons] at hplace
    rw [setCounters, metric_eq (by omega)]
    cases hs : c.operator.isSupported with
    | true =>
      simp only [bind, Except.bind, if_true, setCounter_eq h.1.1 h.1.2 hslices,
        ih h.2 (by omega : place + 1 + rest.length ≤ _),
        counterMetrics, Leaves.setCounters, hs]
    | false =>
      simp only [bind, Except.bind, Bool.false_eq_true, if_false, ih h.2 (by omega : place + 1 + rest.length ≤ _),
        counterMetrics, Leaves.setCounters, hs]

/-- On checked traces every operation on words has its result, so that the computation in words is the plain
one, which only a group with more work than the timeline holds can stop. -/
theorem halts_only_on_busy_overflow {t : Timeline} {cs : List (Counter α)} (h : checkTraces t cs = .ok ())
    (hslices : t.slices.length < 2 ^ 32) (hcounters : cs.length ≤ 2 ^ 31 - 2) :
    compute t cs = (Profile.compute t cs).mapError .defect ∧
    ((∃ p, compute t cs = .ok p) ∨ ∃ g ∈ t.groups, timelineEnd ≤ totalDuration (t.ownSlices g.id) ∧
      ∃ s ∈ t.ownSlices g.id, compute t cs = .error (.defect (.busyOverflow g.id s.ts))) := by
  have hn := (checkTraces_eq_ok_iff.mp h).1
  have hcs : ∀ c ∈ cs, c.Increasing ∧ c.timestamps.size = c.values.size := fun c hc =>
    ⟨increasing_of_checkTraces h hc, (Counter.check_eq_ok_iff.mp ((checkTraces_eq_ok_iff.mp h).2.2 c hc)).1⟩
  have hcount : t.prepare.slices.length ≤ t.slices.length := by
    rw [t.prepare_slices_perm.length_eq]
    exact List.length_filter_le _ _
  have hfew : t.prepare.slices.length < UInt32.size := hcount.trans_lt hslices
  have heq : compute t cs = (Profile.compute t cs).mapError .defect := by
    rw [compute, Profile.compute, h, Profile.leavesOf]
    dsimp only
    rw [difference_eq hcount, setTimes_eq]
    cases ht : (Leaves.ofGroups t.groups : Leaves α).setTimes t.prepare (Leaves.ofGroups t.groups : Leaves α).keys with
    | mk timed failure =>
      cases failure with
      | some d => rfl
      | none =>
        simp only [Except.mapError, bind, Except.bind, setCounters_eq hcs hfew (by omega : 0 + cs.length ≤ _)]
        rfl
  refine ⟨heq, ?_⟩
  rw [heq]
  cases hp : Profile.compute t cs with
  | ok p => exact .inl ⟨p, rfl⟩
  | error d =>
    obtain ⟨g, hg, hover, s, hs, rfl⟩ := Profile.leavesOf_eq_error hn (Profile.compute_eq_error_of_checked h hp)
    exact .inr ⟨g, hg, hover, s, hs, rfl⟩

theorem sketch_does_not_halt : checkTraces Sketch.timeline [Sketch.occupancy, Sketch.reads] = .ok () ∧
    Sketch.timeline.slices.length < 2 ^ 32 ∧ [Sketch.occupancy, Sketch.reads].length ≤ 2 ^ 31 - 2 ∧
    ∃ p, p.entries.length = 5 ∧ compute Sketch.timeline [Sketch.occupancy, Sketch.reads] = .ok p := by
  have hcheck : checkTraces Sketch.timeline [Sketch.occupancy, Sketch.reads] = .ok () := by decide
  have hslices : Sketch.timeline.slices.length < 2 ^ 32 := by decide
  have hcounters : [Sketch.occupancy, Sketch.reads].length ≤ 2 ^ 31 - 2 := by decide
  obtain ⟨heq, -⟩ := halts_only_on_busy_overflow hcheck hslices hcounters
  obtain ⟨p, hp, hlength⟩ := Sketch.computes
  refine ⟨hcheck, hslices, hcounters, p, hlength, ?_⟩
  rw [heq, hp]
  rfl

end Machine

end GpuProfile
