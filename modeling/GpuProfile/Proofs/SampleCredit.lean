import GpuProfile.Proofs.SortedMapLaws
import GpuProfile.Proofs.TouchedIntervals
import GpuProfile.Profile.Attribution
import GpuProfile.Quantity.Exact

/-!
Attribution sample by sample. The weights of a sample come from the slices that touch its interval,
taken in order, and from nothing else; read as fractions they are bounded by one share for each
such slice.
-/

namespace GpuProfile

variable {α : Type} [Quantity α]

@[ext] structure Credit (α : Type) where
  estimate : Option α
  min : Option α
  max : Option α

namespace Credit

def none : Credit α := ⟨.none, .none, .none⟩

def add (v : Interval) (count : ℕ) (credit : Credit α) (s : Slice) : Credit α :=
  if s.Surrounds v then
    { estimate := some (share count)
      min := if count ≤ 1 then some 1 else credit.min
      max := some 1 }
  else
    { credit with
      estimate := some (credit.estimate.getD 0 + Weights.coverage v s * share count)
      max := some 1 }

def ofSlices (v : Interval) (count : ℕ) (slices : List Slice) : Credit α :=
  (slices.filter (·.Touches v)).foldl (add v count) none

end Credit

namespace Weights

def sample (w : Weights α) (i : ℕ) : Credit α := ⟨w.estimate.get? i, w.min.get? i, w.max.get? i⟩

theorem sample_credit_self (w : Weights α) (s : Slice) (i : ℕ) (v : Interval) (count : ℕ) :
    (w.credit s i v count).sample i = (w.sample i).add v count s := by
  by_cases hs : s.start < v.start ∧ v.stop < s.stop
  · by_cases hc : count ≤ 1 <;>
      simp [credit, Credit.add, Slice.Surrounds, sample, SortedMap.get?_insert, hs, hc]
  · simp [credit, Credit.add, Slice.Surrounds, sample, SortedMap.get?_insert, SortedMap.get?_alter, hs]

theorem sample_credit_of_ne (w : Weights α) (s : Slice) {i j : ℕ} (v : Interval) (count : ℕ) (h : i ≠ j) :
    (w.credit s j v count).sample i = w.sample i := by
  by_cases hs : s.start < v.start ∧ v.stop < s.stop
  · by_cases hc : count ≤ 1 <;> simp [credit, sample, SortedMap.get?_insert, hs, hc, h]
  · simp [credit, sample, SortedMap.get?_insert, SortedMap.get?_alter, hs, h]

theorem sample_foldl_credit (w : Weights α) (s : Slice) (v : ℕ → Interval) (count : ℕ → ℕ) {xs : List ℕ}
    (hx : xs.Nodup) (i : ℕ) :
    (xs.foldl (fun w j => w.credit s j (v j) (count j)) w).sample i =
      if i ∈ xs then (w.sample i).add (v i) (count i) s else w.sample i := by
  induction xs generalizing w with
  | nil => simp
  | cons x xs ih =>
    obtain ⟨hnot, hxs⟩ := List.nodup_cons.mp hx
    rw [List.foldl_cons, ih _ hxs]
    by_cases he : i = x
    · subst he
      simp [hnot, sample_credit_self]
    · simp [he, sample_credit_of_ne w s (v x) (count x) he]

theorem sample_ofSlices {c : Counter α} (h : c.Increasing) (slices : List Slice) (counts : Array ℕ) {i : ℕ}
    (hi : i ∈ c.samples) :
    (ofSlices slices c counts).sample i = Credit.ofSlices (c.interval i) (counts.getD i 0) slices := by
  have hfold : ∀ w : Weights α, (slices.foldl
      (fun w s => (c.touching s).foldl (fun w i => w.credit s i (c.interval i) (counts.getD i 0)) w) w).sample i =
        (slices.filter (·.Touches (c.interval i))).foldl
          (Credit.add (c.interval i) (counts.getD i 0)) (w.sample i) := by
    induction slices with
    | nil => simp
    | cons s rest ih =>
      intro w
      rw [List.foldl_cons, ih, sample_foldl_credit w s c.interval (counts.getD · 0) (Counter.nodup_touching s)]
      by_cases ht : s.Touches (c.interval i)
      · rw [if_pos ((Counter.mem_touching h s).mpr ⟨hi, ht⟩), List.filter_cons_of_pos (by simpa using ht),
          List.foldl_cons]
      · rw [if_neg (fun hm => ht ((Counter.mem_touching h s).mp hm).2),
          List.filter_cons_of_neg (by simpa using ht)]
  exact hfold none

theorem sample_ofSlices_of_not_mem {c : Counter α} (h : c.Increasing) (slices : List Slice) (counts : Array ℕ)
    {i : ℕ} (hi : i ∉ c.samples) : (ofSlices slices c counts).sample i = Credit.none := by
  have hfold : ∀ w : Weights α, (slices.foldl
      (fun w s => (c.touching s).foldl (fun w i => w.credit s i (c.interval i) (counts.getD i 0)) w) w).sample i =
        w.sample i := by
    induction slices with
    | nil => simp
    | cons s rest ih =>
      intro w
      rw [List.foldl_cons, ih, sample_foldl_credit w s c.interval (counts.getD · 0) (Counter.nodup_touching s),
        if_neg (fun hm => hi ((Counter.mem_touching h s).mp hm).1)]
  exact hfold none

omit [Quantity α] in
theorem forall_of_sample_ne_none {w : Weights α} {P : ℕ → Prop} (h : ∀ i, w.sample i ≠ Credit.none → P i) :
    (∀ p ∈ w.estimate.toList, P p.1) ∧ (∀ p ∈ w.min.toList, P p.1) ∧ ∀ p ∈ w.max.toList, P p.1 := by
  refine ⟨fun p hp => h _ ?_, fun p hp => h _ ?_, fun p hp => h _ ?_⟩
  all_goals
    intro hnone
    have hget := (SortedMap.mem_toList_iff _).mp hp
    rw [sample, Credit.none, Credit.mk.injEq] at hnone
    simp [hnone] at hget

end Weights

namespace Credit

theorem foldl_add_max (v : Interval) (count : ℕ) (credit : Credit α) {xs : List Slice} (hx : xs ≠ []) :
    (xs.foldl (add v count) credit).max = some 1 := by
  induction xs generalizing credit with
  | nil => exact absurd rfl hx
  | cons s rest ih =>
    rw [List.foldl_cons]
    by_cases hr : rest = []
    · subst hr
      by_cases hs : s.Surrounds v <;> simp [add, hs]
    · exact ih _ hr

theorem foldl_add_min (v : Interval) (count : ℕ) (credit : Credit α) (xs : List Slice) :
    (xs.foldl (add v count) credit).min =
      if count ≤ 1 ∧ ∃ s ∈ xs, s.Surrounds v then some 1 else credit.min := by
  induction xs generalizing credit with
  | nil => simp
  | cons s rest ih =>
    rw [List.foldl_cons, ih]
    by_cases hc : count ≤ 1
    · by_cases hr : ∃ s ∈ rest, s.Surrounds v
      · simp [hc, hr]
      · by_cases hs : s.Surrounds v <;> simp [add, hc, hr, hs]
    · by_cases hs : s.Surrounds v <;> simp [add, hc, hs]

theorem ofSlices_eq_none {v : Interval} {slices : List Slice} (h : ∀ s ∈ slices, ¬s.Touches v) (count : ℕ) :
    (ofSlices v count slices : Credit α) = none := by
  have hnil : slices.filter (·.Touches v) = [] := by
    simpa [List.filter_eq_nil_iff] using h
  rw [ofSlices, hnil, List.foldl_nil]

theorem ofSlices_max (v : Interval) (count : ℕ) (slices : List Slice) :
    (ofSlices v count slices : Credit α).max = if ∃ s ∈ slices, s.Touches v then some 1 else .none := by
  by_cases h : ∃ s ∈ slices, s.Touches v
  · rw [if_pos h]
    apply foldl_add_max
    obtain ⟨s, hs, ht⟩ := h
    exact List.ne_nil_of_mem (List.mem_filter.mpr ⟨hs, by simpa using ht⟩)
  · rw [if_neg h, ofSlices_eq_none fun s hs ht => h ⟨s, hs, ht⟩]
    rfl

theorem ofSlices_min (v : Interval) (count : ℕ) (slices : List Slice) :
    (ofSlices v count slices : Credit α).min =
      if count ≤ 1 ∧ ∃ s ∈ slices, s.Touches v ∧ s.Surrounds v then some 1 else .none := by
  rw [ofSlices, foldl_add_min]
  simp [none, and_assoc]

-- Slices that surround the interval set the estimate and add nothing to it.
theorem foldl_add_estimate_of_surrounds {v : Interval} {count : ℕ} (credit : Credit α) {xs : List Slice} (hx : xs ≠ [])
    (h : ∀ s ∈ xs, s.Surrounds v) : (xs.foldl (add v count) credit).estimate = some (share count) := by
  induction xs generalizing credit with
  | nil => exact absurd rfl hx
  | cons s rest ih =>
    rw [List.forall_mem_cons] at h
    rw [List.foldl_cons]
    by_cases hr : rest = []
    · subst hr
      simp [add, h.1]
    · exact ih _ hr h.2

theorem ofSlices_of_surrounds {v : Interval} {slices : List Slice} (hany : ∃ s ∈ slices, s.Touches v)
    (hall : ∀ s ∈ slices, s.Touches v → s.Surrounds v) (count : ℕ) : (ofSlices v count slices : Credit α) =
      ⟨some (share count), if count ≤ 1 then some 1 else .none, some 1⟩ := by
  obtain ⟨s, hs, ht⟩ := hany
  ext1
  · apply foldl_add_estimate_of_surrounds
    · exact List.ne_nil_of_mem (List.mem_filter.mpr ⟨hs, by simpa using ht⟩)
    · intro s' hs'
      obtain ⟨hmem, htouch⟩ := List.mem_filter.mp hs'
      exact hall s' hmem (of_decide_eq_true htouch)
  · rw [ofSlices_min]
    exact if_congr (and_iff_left ⟨s, hs, ht, hall s hs ht⟩) rfl rfl
  · rw [ofSlices_max, if_pos ⟨s, hs, ht⟩]

end Credit

theorem share_of_le_one {count : ℕ} (h : count ≤ 1) : (share count : α) = 1 := if_neg (by omega)

theorem share_exact (count : ℕ) : (share count : ℚ) = if 1 < count then 1 / (count : ℚ) else 1 := rfl

theorem share_pos (count : ℕ) : 0 < (share count : ℚ) := by
  rw [share_exact]
  split
  · next h =>
    have hc : (0 : ℚ) < count := by exact_mod_cast (by omega : 0 < count)
    positivity
  · exact one_pos

theorem mul_share {count : ℕ} (h : 0 < count) : (count : ℚ) * share count = 1 := by
  rw [share_exact]
  split
  · have hc : (count : ℚ) ≠ 0 := by exact_mod_cast h.ne'
    exact mul_one_div_cancel hc
  · have hc : count = 1 := by omega
    simp [hc]

theorem mul_share_le_one {held count : ℕ} (h : held ≤ count) : (held : ℚ) * share count ≤ 1 := by
  rcases Nat.eq_zero_or_pos count with rfl | hc
  · have hh : held = 0 := by omega
    simp [hh]
  · have hcast : (held : ℚ) ≤ count := by exact_mod_cast h
    calc (held : ℚ) * share count ≤ count * share count := by
          exact mul_le_mul_of_nonneg_right hcast (share_pos count).le
      _ = 1 := mul_share hc

theorem coverage_exact (v : Interval) (s : Slice) : (Weights.coverage v s : ℚ) =
    if v.stop ≠ v.start then
      ((min v.stop s.stop - max v.start s.start : ℕ) : ℚ) / ((v.stop - v.start : ℕ) : ℚ)
    else 0 := rfl

theorem coverage_nonneg (v : Interval) (s : Slice) : 0 ≤ (Weights.coverage v s : ℚ) := by
  rw [coverage_exact]
  split
  · positivity
  · exact le_refl _

theorem coverage_le_one (v : Interval) (s : Slice) : (Weights.coverage v s : ℚ) ≤ 1 := by
  rw [coverage_exact]
  split
  · have hle : min v.stop s.stop - max v.start s.start ≤ v.stop - v.start := by omega
    apply div_le_one_of_le₀
    · exact_mod_cast hle
    · positivity
  · exact zero_le_one

namespace Credit

theorem add_estimate_bounds (v : Interval) (count : ℕ) (credit : Credit ℚ) (s : Slice)
    (h : 0 ≤ credit.estimate.getD 0) :
    0 ≤ (add v count credit s).estimate.getD 0 ∧
      (add v count credit s).estimate.getD 0 ≤ credit.estimate.getD 0 + share count := by
  have hshare := share_pos count
  by_cases hs : s.Surrounds v
  · simp only [add, hs, if_true, Option.getD_some]
    constructor <;> linarith
  · have hcov := mul_le_of_le_one_left hshare.le (coverage_le_one v s)
    have hnon := mul_nonneg (coverage_nonneg v s) hshare.le
    simp only [add, hs, if_false, Option.getD_some]
    constructor
    · linarith
    · linarith

-- Each slice holds one share at most: a surrounding one resets the sum to a single share.
theorem foldl_add_estimate_bounds (v : Interval) (count : ℕ) (credit : Credit ℚ) (xs : List Slice)
    (h : 0 ≤ credit.estimate.getD 0) :
    0 ≤ (xs.foldl (add v count) credit).estimate.getD 0 ∧
      (xs.foldl (add v count) credit).estimate.getD 0 ≤ credit.estimate.getD 0 + xs.length * share count := by
  induction xs generalizing credit with
  | nil => simp [h]
  | cons s rest ih =>
    obtain ⟨hnon, hle⟩ := add_estimate_bounds v count credit s h
    obtain ⟨hnon', hle'⟩ := ih _ hnon
    rw [List.foldl_cons, List.length_cons]
    push_cast
    constructor
    · exact hnon'
    · linarith

theorem ofSlices_estimate_nonneg (v : Interval) (count : ℕ) (slices : List Slice) :
    0 ≤ (ofSlices v count slices : Credit ℚ).estimate.getD 0 :=
  (foldl_add_estimate_bounds v count none _ (le_refl _)).1

theorem ofSlices_estimate_le (v : Interval) (count : ℕ) (slices : List Slice) :
    (ofSlices v count slices : Credit ℚ).estimate.getD 0 ≤ (v.load slices : ℕ) * share count := by
  have hle := (foldl_add_estimate_bounds v count none (slices.filter (·.Touches v)) (le_refl _)).2
  rw [Interval.load, List.countP_eq_length_filter]
  simpa [ofSlices, none] using hle

theorem ofSlices_estimate_of_surrounds {v : Interval} {count : ℕ} {slices : List Slice}
    (hall : ∀ s ∈ slices, s.Touches v → s.Surrounds v) (hone : v.load slices ≤ 1) :
    (ofSlices v count slices : Credit ℚ).estimate.getD 0 = (v.load slices : ℕ) * share count := by
  by_cases h : ∃ s ∈ slices, s.Touches v
  · obtain ⟨s, hs, ht⟩ := h
    have hload : v.load slices = 1 := le_antisymm hone (Interval.load_pos hs ht)
    rw [ofSlices_of_surrounds ⟨s, hs, ht⟩ hall, hload, Nat.cast_one, one_mul]
    rfl
  · have hnone : ∀ s ∈ slices, ¬s.Touches v := fun s hs ht => h ⟨s, hs, ht⟩
    rw [ofSlices_eq_none hnone, Interval.load_eq_zero hnone]
    simp [none]

end Credit

end GpuProfile
