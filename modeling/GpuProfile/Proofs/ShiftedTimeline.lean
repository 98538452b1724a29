import GpuProfile.Proofs.ComputableTraces
import GpuProfile.Proofs.EntryValues
import GpuProfile.Proofs.ExactMerge
import GpuProfile.Proofs.SliceOrder

namespace GpuProfile

def Interval.shift (k : ℕ) (v : Interval) : Interval := ⟨v.start + k, v.stop + k⟩

namespace Slice

def shift (k : ℕ) (s : Slice) : Slice := { s with ts := UInt64.ofNat (s.start + k) }

def Fits (k : ℕ) (s : Slice) : Prop := s.start + s.duration + k < timelineEnd

instance (k : ℕ) (s : Slice) : Decidable (s.Fits k) := inferInstanceAs (Decidable (_ < _))

theorem duration_shift (k : ℕ) (s : Slice) : (s.shift k).duration = s.duration := rfl

variable {k : ℕ} {s : Slice} (h : s.Fits k)

include h

theorem start_shift : (s.shift k).start = s.start + k := by
  have hend : s.start + s.duration + k < timelineEnd := h
  apply UInt64.toNat_ofNat_of_lt'
  unfold timelineEnd at hend
  omega

theorem stop_shift : (s.shift k).stop = s.stop + k := by
  have hend : s.start + s.duration + k < timelineEnd := h
  rw [stop, stop, start_shift h, duration_shift]
  omega

theorem touches_shift (v : Interval) : (s.shift k).Touches (v.shift k) ↔ s.Touches v := by
  rw [Touches, Touches, start_shift h, stop_shift h]
  simp only [Interval.shift, Nat.add_le_add_iff_right]

theorem surrounds_shift (v : Interval) : (s.shift k).Surrounds (v.shift k) ↔ s.Surrounds v := by
  rw [Surrounds, Surrounds, start_shift h, stop_shift h]
  simp only [Interval.shift, Nat.add_lt_add_iff_right]

end Slice

section

variable {k : ℕ} {slices : List Slice}

theorem totalDuration_shift (k : ℕ) (slices : List Slice) :
    totalDuration (slices.map (·.shift k)) = totalDuration slices := by
  rw [totalDuration, List.map_map]
  rfl

theorem Interval.tally_shift (h : ∀ s ∈ slices, s.Fits k) (v : Interval) :
    (v.shift k).tally (slices.map (·.shift k)) = v.tally slices := by
  rw [tally, tally, load, load, List.countP_map]
  congr 1
  apply List.countP_congr
  intro s hs
  simp only [Function.comp_apply, decide_eq_true_eq, Slice.touches_shift (h s hs)]

namespace Busy

/-- The same times, reached `k` later. Before the first slice nothing is reached, moved or not. -/
structure Later (k : ℕ) (b b' : Busy) : Prop where
  times : b.times = b'.times
  reach : b'.reach = b.reach + k ∨ b.reach = 0 ∧ b'.reach = 0

theorem Later.extend {b b' : Busy} (h : b.Later k b') {s : Slice} (hs : s.Fits k) :
    (b.extend s).Later k (b'.extend (s.shift k)) := by
  obtain ⟨hgpu, hwall⟩ := Prod.mk.inj h.times
  have hle := s.start_le_stop
  have hreach := h.reach
  have hcovered : (s.shift k).stop - max (s.shift k).start b'.reach = s.stop - max s.start b.reach := by
    rw [Slice.start_shift hs, Slice.stop_shift hs]
    omega
  constructor
  · simp only [Busy.times, Busy.extend, hgpu, hwall, hcovered, Slice.duration_shift]
  · simp only [Busy.extend, Slice.stop_shift hs]
    omega

theorem ofSlices_shift (h : ∀ s ∈ slices, s.Fits k) (hfits : totalDuration slices < timelineEnd) :
    (ofSlices slices).map times = (ofSlices (slices.map (·.shift k))).map times := by
  have hlater : (slices.foldl extend none).Later k (slices.foldl (fun b s => b.extend (s.shift k)) none) :=
    List.foldl_rel (r := Later k) ⟨rfl, .inr ⟨rfl, rfl⟩⟩ fun s hs _ _ hb => hb.extend (h s hs)
  rw [ofSlices_of_fits hfits, ofSlices_of_fits ((totalDuration_shift k slices).trans_lt hfits), List.foldl_map]
  exact congrArg Except.ok hlater.times

end Busy

variable {α : Type} [Quantity α]

theorem Weights.coverage_shift {s : Slice} (h : s.Fits k) (v : Interval) :
    (coverage (v.shift k) (s.shift k) : α) = coverage v s := by
  have hstop : Nat.min (v.stop + k) (s.stop + k) = Nat.min v.stop s.stop + k := Nat.add_min_add_right ..
  have hstart : Nat.max (v.start + k) (s.start + k) = Nat.max v.start s.start + k := Nat.add_max_add_right ..
  simp only [coverage, Interval.shift, Slice.start_shift h, Slice.stop_shift h, hstop, hstart, Nat.add_sub_add_right,
    ne_eq, Nat.add_right_cancel_iff]

theorem Credit.ofSlices_shift (h : ∀ s ∈ slices, s.Fits k) (v : Interval) (count : ℕ) :
    (ofSlices (v.shift k) count (slices.map (·.shift k)) : Credit α) = ofSlices v count slices := by
  rw [ofSlices, ofSlices, List.foldl_filter, List.foldl_filter, List.foldl_map]
  apply List.foldl_ext
  intro credit s hs
  simp only [add, Slice.touches_shift (h s hs), Slice.surrounds_shift (h s hs), Weights.coverage_shift (h s hs)]

end

namespace Counter

variable {α : Type} {k : ℕ} {c : Counter α}

def shift (k : ℕ) (c : Counter α) : Counter α :=
  { c with timestamps := c.timestamps.map fun ts => UInt64.ofNat (ts.toNat + k) }

def Fits (k : ℕ) (c : Counter α) : Prop := ∀ ts ∈ c.timestamps, ts.toNat + k < timelineEnd

-- There are finitely many words, so that the quantifier by itself would be decided by trying them all.
instance (k : ℕ) (c : Counter α) : Decidable (c.Fits k) :=
  decidable_of_iff (c.timestamps.toList.all fun ts => ts.toNat + k < timelineEnd) (by
    simp only [List.all_eq_true, decide_eq_true_eq, Array.mem_toList_iff, Fits])

theorem size_shift (k : ℕ) (c : Counter α) : (c.shift k).timestamps.size = c.timestamps.size := Array.size_map

theorem samples_shift (k : ℕ) (c : Counter α) : (c.shift k).samples = c.samples := by
  rw [samples, samples, size_shift]

theorem time_of_size_le {i : ℕ} (hi : c.timestamps.size ≤ i) : c.time i = 0 := by
  rw [time, Array.getD_eq_getD_getElem?, Array.getElem?_eq_none hi]
  rfl

variable (h : c.Fits k)

include h

theorem time_shift {i : ℕ} (hi : i < c.timestamps.size) : (c.shift k).time i = c.time i + k := by
  have hlt := h _ (Array.getElem_mem hi)
  simp only [time, shift, Array.getD_eq_getD_getElem?, Array.getElem?_map, Array.getElem?_eq_getElem hi, Option.map_some,
    Option.getD_some]
  exact UInt64.toNat_ofNat_of_lt' hlt

theorem interval_shift {i : ℕ} (hi : i ∈ c.samples) : (c.shift k).interval i = (c.interval i).shift k := by
  rw [mem_samples] at hi
  rw [interval, time_shift h hi.2, time_shift h (by omega)]
  rfl

theorem length_shift (i : ℕ) : ((c.shift k).interval i).stop - ((c.shift k).interval i).start =
    (c.interval i).stop - (c.interval i).start := by
  simp only [interval]
  by_cases hi : i < c.timestamps.size
  · rw [time_shift h hi, time_shift h (by omega), Nat.add_sub_add_right]
  · rw [time_of_size_le (not_lt.mp hi), time_of_size_le (by rw [size_shift]; omega), Nat.zero_sub, Nat.zero_sub]

theorem increasing_shift : (c.shift k).Increasing ↔ c.Increasing := by
  unfold Increasing
  rw [size_shift]
  refine forall_congr' fun i => forall_congr' fun j => forall_congr' fun hij => forall_congr' fun hj => ?_
  rw [time_shift h hj, time_shift h (hij.trans hj), Nat.add_lt_add_iff_right]

end Counter

section

variable {α : Type} [Quantity α] {k : ℕ} {c : Counter α} (h : c.Fits k)

include h

theorem SampleWeights.aggregate?_shift (weights : SampleWeights α) (op : Operator) :
    weights.aggregate? (c.shift k) op = weights.aggregate? c op := by
  cases op with
  | summation => rfl
  | timeWeightedAverage =>
    simp only [aggregate?, mean, Counter.length_shift h]
    rfl
  | unsupported => rfl

theorem Weights.perf?_shift (w : Weights α) (op : Operator) : w.perf? (c.shift k) op = w.perf? c op := by
  simp only [perf?, SampleWeights.aggregate?_shift h]

end

namespace Timeline

def shift (k : ℕ) (t : Timeline) : Timeline := { t with slices := t.slices.map (·.shift k) }

theorem ownSlices_shift (k : ℕ) (t : Timeline) (id : GroupId) :
    (t.shift k).ownSlices id = (t.ownSlices id).map (·.shift k) := List.filter_map

variable {t : Timeline} {k : ℕ} (h : ∀ s ∈ t.slices, s.Fits k)

include h

theorem prepare_slices_shift : (t.shift k).prepare.slices = t.prepare.slices.map (·.shift k) := by
  have hfilter : (t.shift k).slices.filter (t.shift k).profiles = (t.slices.filter t.profiles).map (·.shift k) :=
    List.filter_map
  rw [prepare, prepare, hfilter]
  refine (List.map_mergeSort fun a ha b hb => ?_).symm
  have ha' : (a.shift k).ts.toNat = a.ts.toNat + k := Slice.start_shift (h a (List.mem_filter.mp ha).1)
  have hb' : (b.shift k).ts.toNat = b.ts.toNat + k := Slice.start_shift (h b (List.mem_filter.mp hb).1)
  rw [decide_eq_decide, UInt64.le_iff_toNat_le, UInt64.le_iff_toNat_le, ha', hb', Nat.add_le_add_iff_right]

theorem ofGroup_shift (id : GroupId) :
    (t.shift k).prepare.ofGroup id = (t.prepare.ofGroup id).map (·.shift k) := by
  rw [prepare_ofGroup, prepare_ofGroup, prepare_slices_shift h, List.filter_map]
  rfl

variable {α : Type} [Quantity α] {c : Counter α} (hc : c.Increasing) (hfits : c.Fits k)

include hc hfits

theorem weights_shift (id : GroupId) : (t.shift k).prepare.weights (c.shift k) id = t.prepare.weights c id := by
  have hc' : (c.shift k).Increasing := (Counter.increasing_shift hfits).mpr hc
  have hall : ∀ s ∈ t.prepare.slices, s.Fits k := fun s hs => h s (mem_prepare_slices.mp hs).1
  have hown : ∀ s ∈ t.prepare.ofGroup id, s.Fits k := fun s hs => h s (mem_prepare_ofGroup.mp hs).1
  apply Weights.eq_of_sample
  intro i
  by_cases hi : i ∈ c.samples
  · rw [weights_sample hc' _ id (by rwa [Counter.samples_shift]), weights_sample hc _ id hi,
      Counter.interval_shift hfits hi, prepare_slices_shift h, ofGroup_shift h, Interval.tally_shift hall,
      Credit.ofSlices_shift hown]
  · rw [sample_eq_none hc' _ id fun hm => hi (Counter.samples_shift k c ▸ hm.1), sample_eq_none hc _ id fun hm => hi hm.1]

theorem perf?_shift (id : GroupId) : (t.shift k).prepare.perf? (c.shift k) id = t.prepare.perf? c id := by
  rw [Prepared.perf?, Prepared.perf?, weights_shift h hc hfits]
  exact Weights.perf?_shift hfits _ _

end Timeline

namespace Profile

variable {α : Type}

theorem counterMetrics_shift (k place : ℕ) (cs : List (Counter α)) :
    counterMetrics place (cs.map (·.shift k)) = counterMetrics place cs := by
  induction cs generalizing place with
  | nil => rfl
  | cons c rest ih =>
    rw [List.map_cons, counterMetrics, counterMetrics, ih]
    rfl

theorem metricsOf_shift (k : ℕ) (cs : List (Counter α)) : metricsOf (cs.map (·.shift k)) = metricsOf cs := by
  rw [metricsOf, metricsOf, counterMetrics_shift]

section

variable [Quantity α] {t : Timeline} {cs : List (Counter α)} {k : ℕ} (hs : ∀ s ∈ t.slices, s.Fits k)
  (hc : ∀ c ∈ cs, c.Fits k)

include hs hc

theorem computable_shift : Computable (t.shift k) (cs.map (·.shift k)) ↔ Computable t cs := by
  have hbusy : ∀ id, totalDuration ((t.shift k).ownSlices id) = totalDuration (t.ownSlices id) := fun id => by
    rw [Timeline.ownSlices_shift, totalDuration_shift]
  constructor
  · intro h
    exact {
      distinct := h.distinct
      ends := fun s hm => lt_of_le_of_lt (Nat.le_add_right _ k) (hs s hm)
      lengths := fun c hm => Counter.size_shift k c ▸ h.lengths _ (List.mem_map_of_mem hm)
      increasing := fun c hm => (Counter.increasing_shift (hc c hm)).mp (h.increasing _ (List.mem_map_of_mem hm))
      finite := fun c hm => h.finite (c.shift k) (List.mem_map_of_mem hm)
      busy := fun g hg => hbusy g.id ▸ h.busy g hg }
  · intro h
    exact {
      distinct := h.distinct
      ends := List.forall_mem_map.mpr fun s hm => by
        have hend := hs s hm
        rw [Slice.start_shift hend, Slice.duration_shift, Nat.add_right_comm]
        exact hend
      lengths := List.forall_mem_map.mpr fun c hm => (Counter.size_shift k c).trans (h.lengths c hm)
      increasing := List.forall_mem_map.mpr fun c hm => (Counter.increasing_shift (hc c hm)).mpr (h.increasing c hm)
      finite := List.forall_mem_map.mpr fun c hm => h.finite c hm
      busy := fun g hg => (hbusy g.id).trans_lt (h.busy g hg) }

theorem leavesOf_shift (h : Computable t cs) : leavesOf t cs = leavesOf (t.shift k) (cs.map (·.shift k)) := by
  refine leavesOf_congr rfl (fun id hid => ?_) (List.forall₂_map_right_iff.mpr <| List.forall₂_same.mpr fun c hm => ?_)
  · have hown : ∀ s ∈ t.prepare.ofGroup id, s.Fits k := fun s hm => hs s (Timeline.mem_prepare_ofGroup.mp hm).1
    rw [Timeline.ofGroup_shift hs]
    exact Busy.ofSlices_shift hown (h.fits ((Leaves.mem_keys_ofGroups h.distinct).mp hid))
  · exact ⟨rfl, fun _ id => (Timeline.perf?_shift hs (h.increasing c hm) (hc c hm) id).symm⟩

theorem compute_eq_of_computable (h : Computable t cs) :
    compute (t.shift k) (cs.map (·.shift k)) = compute t cs := by
  obtain ⟨hcheck, -⟩ := computable_iff.mp h
  obtain ⟨hcheck', -⟩ := computable_iff.mp ((computable_shift hs hc).mpr h)
  rw [compute, compute, hcheck, hcheck', leavesOf_shift hs hc h, metricsOf_shift]

theorem compute_shift (p : Profile α) : compute (t.shift k) (cs.map (·.shift k)) = .ok p ↔ compute t cs = .ok p := by
  constructor
  · intro hp
    rw [← compute_eq_of_computable hs hc ((computable_shift hs hc).mp (compute_isOk_iff.mp ⟨p, hp⟩))]
    exact hp
  · intro hp
    rw [compute_eq_of_computable hs hc (compute_isOk_iff.mp ⟨p, hp⟩)]
    exact hp

end

def Sketch.delay : ℕ := timelineEnd - 101

theorem late_sketch_agrees : (∀ s ∈ Sketch.timeline.slices, s.Fits Sketch.delay) ∧
    (∀ c ∈ [Sketch.occupancy, Sketch.reads], c.Fits Sketch.delay) ∧
    ∃ p, compute Sketch.timeline [Sketch.occupancy, Sketch.reads] = .ok p ∧
      compute (Sketch.timeline.shift Sketch.delay) ([Sketch.occupancy, Sketch.reads].map (·.shift Sketch.delay)) =
        .ok p := by
  have hslices : ∀ s ∈ Sketch.timeline.slices, s.Fits Sketch.delay := by decide
  have hcounters : ∀ c ∈ [Sketch.occupancy, Sketch.reads], c.Fits Sketch.delay := by decide
  obtain ⟨p, hp, -⟩ := Sketch.computes
  exact ⟨hslices, hcounters, p, hp, (compute_shift hslices hcounters p).mpr hp⟩

end Profile

end GpuProfile
