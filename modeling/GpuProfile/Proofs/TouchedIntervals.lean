import Mathlib
import GpuProfile.Profile.Overlap

namespace GpuProfile

namespace Slice

def Touches (s : Slice) (v : Interval) : Prop := s.start ≤ v.stop ∧ v.start ≤ s.stop

def Surrounds (s : Slice) (v : Interval) : Prop := s.start < v.start ∧ v.stop < s.stop

instance (s : Slice) (v : Interval) : Decidable (s.Touches v) := inferInstanceAs (Decidable (_ ∧ _))

instance (s : Slice) (v : Interval) : Decidable (s.Surrounds v) := inferInstanceAs (Decidable (_ ∧ _))

theorem Surrounds.touches {s : Slice} {v : Interval} (h : s.Surrounds v) (hv : v.start ≤ v.stop) : s.Touches v :=
  ⟨by have := h.1; omega, by have := h.2; omega⟩

end Slice

namespace Interval

def load (v : Interval) (slices : List Slice) : ℕ := slices.countP fun s => s.Touches v

theorem load_pos {v : Interval} {slices : List Slice} {s : Slice} (hs : s ∈ slices) (ht : s.Touches v) :
    0 < v.load slices := List.countP_pos_iff.mpr ⟨s, hs, by simpa using ht⟩

theorem load_eq_zero {v : Interval} {slices : List Slice} (h : ∀ s ∈ slices, ¬s.Touches v) : v.load slices = 0 := by
  rw [load, List.countP_eq_zero]
  simpa using h

def tally (v : Interval) (slices : List Slice) : ℕ := v.load slices % UInt32.size

theorem tally_eq_load {v : Interval} {slices : List Slice} (h : v.load slices < UInt32.size) :
    v.tally slices = v.load slices := Nat.mod_eq_of_lt h

theorem tally_perm (v : Interval) {slices slices' : List Slice} (h : slices.Perm slices') :
    v.tally slices = v.tally slices' := congrArg (· % UInt32.size) (h.countP_eq _)

theorem filter_of_load_le_one {v : Interval} {slices : List Slice} (h : v.load slices ≤ 1) {s : Slice}
    (hs : s ∈ slices) (ht : s.Touches v) : slices.filter (·.Touches v) = [s] := by
  have hm : s ∈ slices.filter (·.Touches v) := List.mem_filter.mpr ⟨hs, by simpa using ht⟩
  rw [load, List.countP_eq_length_filter] at h
  obtain ⟨x, hx⟩ := List.length_eq_one_iff.mp (le_antisymm h (List.length_pos_of_mem hm))
  rw [hx, List.mem_singleton] at hm
  rw [hx, hm]

theorem eq_of_load_le_one {v : Interval} {slices : List Slice} (h : v.load slices ≤ 1) {s s' : Slice}
    (hs : s ∈ slices) (ht : s.Touches v) (hs' : s' ∈ slices) (ht' : s'.Touches v) : s = s' := by
  have hm : s ∈ slices.filter (·.Touches v) := List.mem_filter.mpr ⟨hs, by simpa using ht⟩
  rw [filter_of_load_le_one h hs' ht'] at hm
  exact List.mem_singleton.mp hm

end Interval

theorem bisect_border {before : ℕ → Bool} {base size : ℕ}
    (h : ∀ i j, i ≤ j → j < base + size → before j → before i) :
    base ≤ bisect before base size ∧ bisect before base size ≤ base + size ∧
      ∀ i, base ≤ i → i < base + size → (before i ↔ i < bisect before base size) := by
  fun_induction bisect before base size with
  | case1 base => exact ⟨le_refl _, by omega, by omega⟩
  | case2 base hb =>
    refine ⟨by omega, by omega, fun i hi hlt => ?_⟩
    have he : i = base := by omega
    simp [he, hb]
  | case3 base hb =>
    refine ⟨by omega, by omega, fun i hi hlt => ?_⟩
    have he : i = base := by omega
    simp [he, hb]
  | case4 base size h0 h1 half ih =>
    have hhalf : 1 ≤ half ∧ half ≤ size - half := by omega
    by_cases hb : before (base + half)
    · simp only [hb, ↓reduceIte, ↓reduceDIte] at ih ⊢
      obtain ⟨hlo, hhi, hiff⟩ := ih fun i j hij hj => h i j hij (by omega)
      refine ⟨by omega, by omega, fun i hi hlt => ?_⟩
      by_cases hmid : i < base + half
      · have hbi := h i (base + half) (by omega) (by omega) hb
        simp only [hbi, true_iff]
        omega
      · exact hiff i (by omega) (by omega)
    · simp only [hb, Bool.false_eq_true, ↓reduceIte, ↓reduceDIte] at ih ⊢
      obtain ⟨hlo, hhi, hiff⟩ := ih fun i j hij hj => h i j hij (by omega)
      refine ⟨hlo, by omega, fun i hi hlt => ?_⟩
      by_cases hmid : i < base + (size - half)
      · exact hiff i hi hmid
      · have hbi : ¬ before i := fun hbi => hb (h (base + half) i (by omega) hlt hbi)
        simp only [hbi, Bool.false_eq_true, false_iff]
        omega

theorem mem_takeWhile_range' {p : ℕ → Bool} {first n i : ℕ}
    (h : ∀ j k, first ≤ j → j ≤ k → k < first + n → p k → p j) :
    i ∈ (List.range' first n).takeWhile p ↔ first ≤ i ∧ i < first + n ∧ p i := by
  induction n generalizing first with
  | zero => simp; omega
  | succ n ih =>
    rw [List.range'_succ, List.takeWhile_cons]
    split
    · next hp =>
      rw [List.mem_cons, ih fun j k hj hjk hk => h j k (by omega) hjk (by omega)]
      constructor
      · rintro (rfl | ⟨hi, hlt, hpi⟩)
        · exact ⟨le_refl _, by omega, hp⟩
        · exact ⟨by omega, by omega, hpi⟩
      · rintro ⟨hi, hlt, hpi⟩
        by_cases he : i = first
        · exact .inl he
        · exact .inr ⟨by omega, by omega, hpi⟩
    · next hp =>
      simp only [List.not_mem_nil, false_iff]
      rintro ⟨hi, hlt, hpi⟩
      exact hp (h first i (le_refl _) hi hlt hpi)

namespace Counter

variable {α : Type} (c : Counter α)

def Increasing : Prop := ∀ i j, i < j → j < c.timestamps.size → c.time i < c.time j

def samples : Finset ℕ := Finset.Ico 1 c.timestamps.size

variable {c}

@[simp]
theorem mem_samples {i : ℕ} : i ∈ c.samples ↔ 1 ≤ i ∧ i < c.timestamps.size := Finset.mem_Ico

theorem Increasing.time_le (h : c.Increasing) {i j : ℕ} (hij : i ≤ j) (hj : j < c.timestamps.size) :
    c.time i ≤ c.time j := by
  rcases Nat.lt_or_eq_of_le hij with hlt | rfl
  · exact (h i j hlt hj).le
  · exact le_refl _

theorem Increasing.start_lt_stop (h : c.Increasing) {i : ℕ} (hi : i ∈ c.samples) :
    (c.interval i).start < (c.interval i).stop := by
  rw [mem_samples] at hi
  exact h (i - 1) i (by omega) hi.2

theorem firstCandidate_le_iff (h : c.Increasing) {start i : ℕ} (hi : i ∈ c.samples) :
    c.firstCandidate start ≤ i ↔ start ≤ c.time i := by
  rw [mem_samples] at hi
  have hborder := @bisect_border (fun i => decide (c.time i < start)) 0 c.timestamps.size (by
    intro i j hij hj hb
    simp only [decide_eq_true_eq] at hb ⊢
    exact (h.time_le hij (by omega)).trans_lt hb)
  have hiff := hborder.2.2 i (Nat.zero_le _) (by omega)
  simp only [decide_eq_true_eq] at hiff
  simp only [firstCandidate]
  omega

theorem mem_touching (h : c.Increasing) (s : Slice) {i : ℕ} :
    i ∈ c.touching s ↔ i ∈ c.samples ∧ s.Touches (c.interval i) := by
  have hfirst : 1 ≤ c.firstCandidate s.start := le_max_left _ _
  rw [touching, mem_takeWhile_range']
  · simp only [decide_eq_true_eq, Slice.Touches]
    constructor
    · rintro ⟨hi, hlt, hstop⟩
      have hs : i ∈ c.samples := mem_samples.mpr ⟨by omega, by omega⟩
      exact ⟨hs, (firstCandidate_le_iff h hs).mp hi, hstop⟩
    · rintro ⟨hs, hstart, hstop⟩
      have hi := (firstCandidate_le_iff h hs).mpr hstart
      rw [mem_samples] at hs
      exact ⟨hi, by omega, hstop⟩
  · intro j k hj hjk hk hp
    simp only [decide_eq_true_eq] at hp ⊢
    exact (h.time_le (by omega) (by omega)).trans hp

theorem nodup_touching (s : Slice) : (c.touching s).Nodup :=
  (List.nodup_range' 1).sublist (List.takeWhile_sublist _)

end Counter

theorem size_foldl_modify (f : ℕ → ℕ) (xs : List ℕ) (counts : Array ℕ) :
    (xs.foldl (fun counts i => counts.modify i f) counts).size = counts.size := by
  induction xs generalizing counts with
  | nil => rfl
  | cons x xs ih => rw [List.foldl_cons, ih, Array.size_modify]

theorem getD_foldl_modify (f : ℕ → ℕ) {xs : List ℕ} (hx : xs.Nodup) (counts : Array ℕ) {i : ℕ} (hi : i < counts.size) :
    (xs.foldl (fun counts i => counts.modify i f) counts).getD i 0 =
      if i ∈ xs then f (counts.getD i 0) else counts.getD i 0 := by
  induction xs generalizing counts with
  | nil => simp
  | cons x xs ih =>
    obtain ⟨hnot, hxs⟩ := List.nodup_cons.mp hx
    rw [List.foldl_cons, ih hxs _ (by simpa using hi)]
    by_cases he : x = i
    · subst he
      simp [hnot, hi, Array.getElem_modify_self]
    · simp [he, Ne.symm he, hi, Array.getElem_modify]

namespace Counter

variable {α : Type} {c : Counter α}

theorem size_concurrency (slices : List Slice) : (c.concurrency slices).size = c.timestamps.size := by
  have hfold : ∀ counts : Array ℕ, (slices.foldl
      (fun counts s => (c.touching s).foldl (fun counts i => counts.modify i nextCount) counts) counts).size =
        counts.size := by
    induction slices with
    | nil => exact fun _ => rfl
    | cons s rest ih =>
      intro counts
      rw [List.foldl_cons, ih, size_foldl_modify]
  rw [concurrency, hfold, Array.size_replicate]

theorem getD_concurrency_eq_countP (slices : List Slice) {i : ℕ} (hi : i < c.timestamps.size) :
    (c.concurrency slices).getD i 0 = (slices.countP fun s => i ∈ c.touching s) % UInt32.size := by
  have hfold : ∀ counts : Array ℕ, i < counts.size → counts.getD i 0 < UInt32.size → (slices.foldl
      (fun counts s => (c.touching s).foldl (fun counts i => counts.modify i nextCount) counts) counts).getD i 0 =
        (counts.getD i 0 + slices.countP fun s => i ∈ c.touching s) % UInt32.size := by
    induction slices with
    | nil =>
      intro counts hc hword
      exact (Nat.mod_eq_of_lt hword).symm
    | cons s rest ih =>
      intro counts hc hword
      have hnext : nextCount (counts.getD i 0) < UInt32.size := Nat.mod_lt _ (by decide)
      have hstep := getD_foldl_modify nextCount (nodup_touching (c := c) s) counts hc
      have hsize : i < ((c.touching s).foldl (fun counts i => counts.modify i nextCount) counts).size := by
        rwa [size_foldl_modify]
      rw [List.foldl_cons, List.countP_cons]
      by_cases hm : i ∈ c.touching s
      · rw [if_pos hm] at hstep
        rw [ih _ hsize (hstep ▸ hnext), hstep, nextCount, Nat.mod_add_mod]
        simp only [hm, decide_true, if_true, Nat.add_assoc, Nat.add_comm 1]
      · rw [if_neg hm] at hstep
        rw [ih _ hsize (hstep ▸ hword), hstep]
        simp [hm]
  rw [concurrency, hfold _ (by simpa using hi) (by simp [hi, UInt32.size])]
  simp [hi]

theorem getD_concurrency (h : c.Increasing) (slices : List Slice) {i : ℕ} (hi : i ∈ c.samples) :
    (c.concurrency slices).getD i 0 = (c.interval i).tally slices := by
  rw [getD_concurrency_eq_countP slices (mem_samples.mp hi).2, Interval.tally, Interval.load]
  congr 1
  apply List.countP_congr
  intro s _
  simp only [decide_eq_true_eq, mem_touching h s, hi, true_and]

end Counter

end GpuProfile
