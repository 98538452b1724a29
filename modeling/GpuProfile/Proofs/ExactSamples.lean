import GpuProfile.Proofs.LeafValues
import GpuProfile.Proofs.ProfiledSlices
import GpuProfile.Proofs.SampleCredit
import GpuProfile.Profile.Aggregate

namespace GpuProfile

theorem sum_exact (xs : List ℚ) : Quantity.sum xs = xs.sum := by
  have hfold : ∀ x : ℚ, xs.foldl (· + ·) x = x + xs.sum := by
    induction xs with
    | nil => simp
    | cons y rest ih =>
      intro x
      rw [List.foldl_cons, ih, List.sum_cons, add_assoc]
  have hzero := hfold (-0)
  rw [neg_zero, zero_add] at hzero
  exact hzero

theorem lesser_eq_min (x y : ℚ) : Quantity.lesser x y = min x y := by
  rw [Quantity.lesser_exact]
  split
  · next h => exact (min_eq_right h.le).symm
  · next h => exact (min_eq_left (not_lt.mp h)).symm

theorem greater_eq_max (x y : ℚ) : Quantity.greater x y = max x y := by
  rw [Quantity.greater_exact]
  split
  · next h => exact (max_eq_right h.le).symm
  · next h => exact (max_eq_left (not_lt.mp h)).symm

theorem foldl_min_isLeast {β : Type} [LinearOrder β] (x : β) (xs : List β) :
    IsLeast {y | y ∈ x :: xs} (xs.foldl min x) := by
  induction xs generalizing x with
  | nil => simp [IsLeast, lowerBounds]
  | cons y rest ih =>
    obtain ⟨hmem, hle⟩ := ih (min x y)
    have hfirst := hle (show min x y ∈ {z | z ∈ min x y :: rest} from List.mem_cons_self)
    rw [List.foldl_cons]
    constructor
    · rcases List.mem_cons.mp hmem with he | hr
      · rw [Set.mem_ofPred_eq, he]
        rcases min_choice x y with hc | hc <;> rw [hc] <;> simp
      · exact List.mem_cons_of_mem _ (List.mem_cons_of_mem _ hr)
    · intro z hz
      rcases List.mem_cons.mp hz with rfl | hz
      · exact hfirst.trans (min_le_left _ _)
      · rcases List.mem_cons.mp hz with rfl | hz
        · exact hfirst.trans (min_le_right _ _)
        · exact hle (List.mem_cons_of_mem _ hz)

theorem foldl_lesser_isLeast (x : ℚ) (xs : List ℚ) : IsLeast {y | y ∈ x :: xs} (xs.foldl Quantity.lesser x) := by
  rw [show (Quantity.lesser : ℚ → ℚ → ℚ) = min by funext x y; exact lesser_eq_min x y]
  exact foldl_min_isLeast x xs

theorem foldl_greater_isGreatest (x : ℚ) (xs : List ℚ) :
    IsGreatest {y | y ∈ x :: xs} (xs.foldl Quantity.greater x) := by
  rw [show (Quantity.greater : ℚ → ℚ → ℚ) = max by funext x y; exact greater_eq_max x y]
  exact @foldl_min_isLeast ℚᵒᵈ _ x xs

namespace Weights

def sets (w : Weights ℚ) : List (SampleWeights ℚ) := [w.estimate, w.min, w.max]

def results (w : Weights ℚ) (c : Counter ℚ) (op : Operator) : Set ℚ :=
  {x | ∃ ws ∈ w.sets, ws.aggregate? c op = some x}

theorem band_of_perf? {w : Weights ℚ} {c : Counter ℚ} {op : Operator} {v : Perf ℚ} (h : w.perf? c op = some v) :
    w.estimate.aggregate? c op = some v.estimate ∧
      IsLeast (w.results c op) v.min ∧ IsGreatest (w.results c op) v.max := by
  obtain ⟨x, hx, rfl⟩ := Option.map_eq_some_iff.mp h
  have hset : w.results c op =
      {y | y ∈ x :: [w.min.aggregate? c op, w.max.aggregate? c op].filterMap id} := by
    ext y
    simp [results, sets, hx, eq_comm]
  rw [hset]
  exact ⟨hx, foldl_lesser_isLeast _ _, foldl_greater_isGreatest _ _⟩

theorem ordered_of_perf? {w : Weights ℚ} {c : Counter ℚ} {op : Operator} {v : Perf ℚ} (h : w.perf? c op = some v) :
    v.min ≤ v.estimate ∧ v.estimate ≤ v.max := by
  obtain ⟨he, hmin, hmax⟩ := band_of_perf? h
  have hm : v.estimate ∈ w.results c op := ⟨w.estimate, by simp [sets], he⟩
  exact ⟨hmin.2 hm, hmax.2 hm⟩

end Weights

section

variable {α : Type} [Quantity α] {c : Counter α} (h : c.Increasing) (p : Prepared) (id : GroupId) {i : ℕ}

include h

theorem weights_sample (hi : i ∈ c.samples) : (p.weights c id).sample i =
    Credit.ofSlices (c.interval i) ((c.interval i).tally p.slices) (p.ofGroup id) := by
  rw [Prepared.weights, Weights.sample_ofSlices h _ _ hi, Counter.getD_concurrency h _ hi]

theorem get?_estimate (hi : i ∈ c.samples) : (p.weights c id).estimate.get? i =
    (Credit.ofSlices (c.interval i) ((c.interval i).tally p.slices) (p.ofGroup id)).estimate :=
  congrArg Credit.estimate (weights_sample h p id hi)

theorem get?_min (hi : i ∈ c.samples) : (p.weights c id).min.get? i =
    (Credit.ofSlices (c.interval i) ((c.interval i).tally p.slices) (p.ofGroup id)).min :=
  congrArg Credit.min (weights_sample h p id hi)

theorem get?_max (hi : i ∈ c.samples) : (p.weights c id).max.get? i =
    (Credit.ofSlices (c.interval i) ((c.interval i).tally p.slices) (p.ofGroup id)).max :=
  congrArg Credit.max (weights_sample h p id hi)

theorem sample_eq_none (hno : ¬(i ∈ c.samples ∧ ∃ s ∈ p.ofGroup id, s.Touches (c.interval i))) :
    (p.weights c id).sample i = Credit.none := by
  by_cases hi : i ∈ c.samples
  · rw [weights_sample h p id hi]
    exact Credit.ofSlices_eq_none (fun s hs ht => hno ⟨hi, s, hs, ht⟩) _
  · exact Weights.sample_ofSlices_of_not_mem h _ _ hi

theorem touched_of_weights :
    (∀ q ∈ (p.weights c id).estimate.toList, q.1 ∈ c.samples ∧ ∃ s ∈ p.ofGroup id, s.Touches (c.interval q.1)) ∧
    (∀ q ∈ (p.weights c id).min.toList, q.1 ∈ c.samples ∧ ∃ s ∈ p.ofGroup id, s.Touches (c.interval q.1)) ∧
    ∀ q ∈ (p.weights c id).max.toList, q.1 ∈ c.samples ∧ ∃ s ∈ p.ofGroup id, s.Touches (c.interval q.1) := by
  apply Weights.forall_of_sample_ne_none (P := fun i => i ∈ c.samples ∧ ∃ s ∈ p.ofGroup id, s.Touches (c.interval i))
  intro i hsome
  by_contra hno
  exact hsome (sample_eq_none h p id hno)

end

section

variable {c : Counter ℚ} (h : c.Increasing) (t : Timeline) (id : GroupId) {i : ℕ} (hi : i ∈ c.samples)

include h hi

theorem estimate_nonneg : 0 ≤ ((t.prepare.weights c id).estimate.get? i).getD 0 := by
  rw [get?_estimate h t.prepare id hi]
  exact Credit.ofSlices_estimate_nonneg _ _ _

theorem estimate_le : ((t.prepare.weights c id).estimate.get? i).getD 0 ≤
    ((c.interval i).load (t.prepare.ofGroup id) : ℕ) * share ((c.interval i).tally t.prepare.slices) := by
  rw [get?_estimate h t.prepare id hi]
  exact Credit.ofSlices_estimate_le _ _ _

theorem estimate_of_surrounds
    (hall : ∀ s ∈ t.prepare.ofGroup id, s.Touches (c.interval i) → s.Surrounds (c.interval i))
    (hone : (c.interval i).load (t.prepare.ofGroup id) ≤ 1) :
    ((t.prepare.weights c id).estimate.get? i).getD 0 =
      ((c.interval i).load (t.prepare.ofGroup id) : ℕ) * share ((c.interval i).tally t.prepare.slices) := by
  rw [get?_estimate h t.prepare id hi]
  exact Credit.ofSlices_estimate_of_surrounds hall hone

theorem min_weight : ((t.prepare.weights c id).min.get? i).getD 0 =
    if (c.interval i).tally t.prepare.slices ≤ 1 ∧
      ∃ s ∈ t.prepare.ofGroup id, s.Touches (c.interval i) ∧ s.Surrounds (c.interval i) then 1 else 0 := by
  rw [get?_min h t.prepare id hi, Credit.ofSlices_min]
  split <;> rfl

theorem max_weight : ((t.prepare.weights c id).max.get? i).getD 0 =
    if ∃ s ∈ t.prepare.ofGroup id, s.Touches (c.interval i) then 1 else 0 := by
  rw [get?_max h t.prepare id hi, Credit.ofSlices_max]
  split <;> rfl

section

variable (hfew : t.Uncrowded (c.interval i))

include hfew

theorem min_le_estimate : ((t.prepare.weights c id).min.get? i).getD 0 ≤
    ((t.prepare.weights c id).estimate.get? i).getD 0 := by
  rw [min_weight h t id hi, hfew.tally_eq]
  split
  · next hc =>
    obtain ⟨hcount, s, hs, ht, hsur⟩ := hc
    have hle := hcount.trans' (t.load_ofGroup_le id (c.interval i))
    have hpos := Interval.load_pos hs ht
    have hall : ∀ s' ∈ t.prepare.ofGroup id, s'.Touches (c.interval i) → s'.Surrounds (c.interval i) := by
      intro s' hs' ht'
      rwa [Interval.eq_of_load_le_one hle hs' ht' hs ht]
    have hload : (c.interval i).load (t.prepare.ofGroup id) = (c.interval i).load t.prepare.slices := by
      have := t.load_ofGroup_le id (c.interval i)
      omega
    rw [estimate_of_surrounds h t id hi hall hle, hload, hfew.tally_eq, mul_share (by omega)]
  · exact estimate_nonneg h t id hi

theorem estimate_le_max : ((t.prepare.weights c id).estimate.get? i).getD 0 ≤
    ((t.prepare.weights c id).max.get? i).getD 0 := by
  have hle := estimate_le h t id hi
  rw [hfew.tally_eq] at hle
  rw [max_weight h t id hi]
  split
  · exact hle.trans (mul_share_le_one (t.load_ofGroup_le id _))
  · next hnone =>
    rw [Interval.load_eq_zero fun s hs ht => hnone ⟨s, hs, ht⟩] at hle
    simpa using hle

end

end

theorem Prepared.estimate_perf? {α : Type} [Quantity α] (p : Prepared) {c : Counter α} (ho : c.operator = .summation)
    (id : GroupId) : (p.perf? c id).map (·.estimate) = some ((p.weights c id).estimate.sum c) := by
  rw [perf?, ho, Weights.perf?, Option.map_map]
  rfl

theorem Counter.value_nonneg {c : Counter ℚ} (hv : ∀ x ∈ c.values, 0 ≤ x) (i : ℕ) : 0 ≤ c.value i := by
  rw [Counter.value, Array.getD_eq_getD_getElem?]
  cases hx : c.values[i]? with
  | none => exact le_refl _
  | some x => exact hv x (Array.mem_of_getElem? hx)

section

variable {c : Counter ℚ} (h : c.Increasing) (t : Timeline) (id : GroupId)

include h

theorem reaches_of_get? {w : SampleWeights ℚ} (hw : w ∈ (t.prepare.weights c id).sets) {i : ℕ} {x : ℚ}
    (hx : w.get? i = some x) : i ∈ c.samples ∧ t.Reaches id (c.interval i) ∧ 0 ≤ x := by
  simp only [Weights.sets, List.mem_cons, List.not_mem_nil, or_false] at hw
  have hmem : i ∈ c.samples ∧ ∃ s ∈ t.prepare.ofGroup id, s.Touches (c.interval i) := by
    obtain ⟨hestimate, hmin, hmax⟩ := touched_of_weights h t.prepare id
    have hpair : (i, x) ∈ w.toList := (SortedMap.mem_toList_iff w).mpr hx
    rcases hw with rfl | rfl | rfl
    · exact hestimate _ hpair
    · exact hmin _ hpair
    · exact hmax _ hpair
  obtain ⟨hi, htouch⟩ := hmem
  refine ⟨hi, Timeline.reaches_iff.mp htouch, ?_⟩
  rw [show x = (w.get? i).getD 0 by rw [hx]; rfl]
  rcases hw with rfl | rfl | rfl
  · exact estimate_nonneg h t id hi
  · rw [min_weight h t id hi]
    split <;> simp
  · rw [max_weight h t id hi]
    split <;> simp

theorem sets_sum {w : SampleWeights ℚ} (hw : w ∈ (t.prepare.weights c id).sets) :
    w.sum c = ∑ i ∈ c.samples, c.value i * (w.get? i).getD 0 := by
  have hkeys : ∀ i, (w.get? i).isSome → i ∈ c.samples := by
    intro i hs
    obtain ⟨x, hx⟩ := Option.isSome_iff_exists.mp hs
    exact (reaches_of_get? h t id hw hx).1
  have hsum := w.sum_toList (fun i weight => c.value i * weight) hkeys
  rw [SampleWeights.sum, sum_exact]
  refine hsum.trans (Finset.sum_congr rfl fun i _ => ?_)
  cases w.get? i with
  | none => simp
  | some weight => rfl

theorem estimate_sum : (t.prepare.weights c id).estimate.sum c =
    ∑ i ∈ c.samples, c.value i * ((t.prepare.weights c id).estimate.get? i).getD 0 :=
  sets_sum h t id (by simp [Weights.sets])

theorem min_sum : (t.prepare.weights c id).min.sum c =
    ∑ i ∈ c.samples, c.value i * ((t.prepare.weights c id).min.get? i).getD 0 :=
  sets_sum h t id (by simp [Weights.sets])

theorem max_sum : (t.prepare.weights c id).max.sum c =
    ∑ i ∈ c.samples, c.value i * ((t.prepare.weights c id).max.get? i).getD 0 :=
  sets_sum h t id (by simp [Weights.sets])

theorem sum_groups_eq_sum_samples {groups : Finset Group} {w : Group → SampleWeights ℚ}
    (hw : ∀ g ∈ groups, w g ∈ (t.prepare.weights c g.id).sets) :
    ∑ g ∈ groups, (w g).sum c = ∑ i ∈ c.samples, c.value i * ∑ g ∈ groups, ((w g).get? i).getD 0 := by
  calc ∑ g ∈ groups, (w g).sum c = ∑ g ∈ groups, ∑ i ∈ c.samples, c.value i * ((w g).get? i).getD 0 :=
        Finset.sum_congr rfl fun g hg => sets_sum h t g.id (hw g hg)
    _ = ∑ i ∈ c.samples, c.value i * ∑ g ∈ groups, ((w g).get? i).getD 0 := by
        rw [Finset.sum_comm]
        simp only [Finset.mul_sum]

variable (hfew : ∀ i ∈ c.samples, t.Uncrowded (c.interval i)) (hv : ∀ x ∈ c.values, 0 ≤ x)

include hfew hv

theorem min_sum_le_estimate_sum :
    (t.prepare.weights c id).min.sum c ≤ (t.prepare.weights c id).estimate.sum c := by
  rw [min_sum h, estimate_sum h]
  exact Finset.sum_le_sum fun i hi =>
    mul_le_mul_of_nonneg_left (min_le_estimate h t id hi (hfew i hi)) (Counter.value_nonneg hv i)

theorem estimate_sum_le_max_sum :
    (t.prepare.weights c id).estimate.sum c ≤ (t.prepare.weights c id).max.sum c := by
  rw [estimate_sum h, max_sum h]
  exact Finset.sum_le_sum fun i hi =>
    mul_le_mul_of_nonneg_left (estimate_le_max h t id hi (hfew i hi)) (Counter.value_nonneg hv i)

-- Without negative values the sure weights give the least of the three sums and the touched samples
-- the greatest, so that widening leaves just these.
theorem perf?_summation (ho : c.operator = .summation) :
    t.prepare.perf? c id = some ⟨(t.prepare.weights c id).estimate.sum c, (t.prepare.weights c id).min.sum c,
      (t.prepare.weights c id).max.sum c⟩ := by
  have hle := min_sum_le_estimate_sum h t id hfew hv
  have hle' := estimate_sum_le_max_sum h t id hfew hv
  rw [Prepared.perf?, ho]
  simp only [Weights.perf?, SampleWeights.aggregate?, Option.map_some, List.filterMap_cons, id_eq, List.filterMap_nil,
    List.foldl_cons, List.foldl_nil, lesser_eq_min, greater_eq_max]
  rw [min_eq_right hle, min_eq_left (hle.trans hle'), max_eq_left hle, max_eq_right hle']

end

end GpuProfile
