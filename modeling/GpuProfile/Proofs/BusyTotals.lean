import Mathlib
import GpuProfile.Profile.Busy

namespace GpuProfile

namespace Slice

theorem start_le_stop (s : Slice) : s.start ≤ s.stop := by
  have hlt : s.start < timelineEnd := s.ts.toNat_lt
  unfold Slice.stop
  omega

def Ends (s : Slice) : Prop := s.start + s.duration < timelineEnd

instance (s : Slice) : Decidable s.Ends := inferInstanceAs (Decidable (_ < _))

theorem Ends.stop_eq {s : Slice} (h : s.Ends) : s.stop = s.start + s.duration :=
  Nat.min_eq_left (Nat.le_sub_one_of_lt h)

end Slice

def totalDuration (slices : List Slice) : ℕ := (slices.map Slice.duration).sum

@[simp]
theorem totalDuration_nil : totalDuration [] = 0 := rfl

@[simp]
theorem totalDuration_cons (s : Slice) (slices : List Slice) :
    totalDuration (s :: slices) = s.duration + totalDuration slices := by
  simp [totalDuration]

theorem totalDuration_perm {slices slices' : List Slice} (h : slices.Perm slices') :
    totalDuration slices = totalDuration slices' := (h.map _).sum_eq

namespace Busy

def extend (b : Busy) (s : Slice) : Busy where
  gpu := b.gpu + s.duration
  wall := b.wall + (s.stop - max s.start b.reach)
  reach := max b.reach s.stop

theorem foldl_extend_gpu (slices : List Slice) (b : Busy) :
    (slices.foldl extend b).gpu = b.gpu + totalDuration slices := by
  induction slices generalizing b with
  | nil => rfl
  | cons s rest ih =>
    rw [List.foldl_cons, ih, totalDuration_cons, extend, Nat.add_assoc]

-- A slice in time already counted ends by the reach, so that the general rule adds nothing for it.
theorem add_eq (b : Busy) (s : Slice) :
    b.add s = if timelineEnd ≤ b.gpu + s.duration then .error (.busyOverflow s.group s.ts) else .ok (b.extend s) := by
  unfold add
  split
  · rfl
  · split
    · next h =>
      have hwall : s.stop - max s.start b.reach = 0 := by omega
      have hreach : max b.reach s.stop = b.reach := by omega
      rw [extend, hwall, hreach, Nat.add_zero]
    · rfl

theorem addAll_of_fits {slices : List Slice} {b : Busy} (h : b.gpu + totalDuration slices < timelineEnd) :
    addAll slices b = .ok (slices.foldl extend b) := by
  induction slices generalizing b with
  | nil => rfl
  | cons s rest ih =>
    rw [totalDuration_cons] at h
    have hfits : ¬timelineEnd ≤ b.gpu + s.duration := by omega
    have hrest : (b.extend s).gpu + totalDuration rest < timelineEnd := by
      simp only [extend]
      omega
    rw [addAll, add_eq, if_neg hfits, List.foldl_cons, ← ih hrest]
    rfl

theorem addAll_of_not_fits {slices : List Slice} {b : Busy} (hb : b.gpu < timelineEnd)
    (h : timelineEnd ≤ b.gpu + totalDuration slices) :
    ∃ s ∈ slices, addAll slices b = .error (.busyOverflow s.group s.ts) := by
  induction slices generalizing b with
  | nil =>
    rw [totalDuration_nil] at h
    omega
  | cons s rest ih =>
    rw [totalDuration_cons] at h
    rw [addAll, add_eq]
    by_cases hs : timelineEnd ≤ b.gpu + s.duration
    · rw [if_pos hs]
      exact ⟨s, List.mem_cons_self, rfl⟩
    · have hrest : timelineEnd ≤ (b.extend s).gpu + totalDuration rest := by
        simp only [extend]
        omega
      obtain ⟨s', hs', he⟩ := ih (b := b.extend s) (by simp only [extend]; omega) hrest
      rw [if_neg hs]
      exact ⟨s', List.mem_cons_of_mem _ hs', he⟩

theorem ofSlices_of_fits {slices : List Slice} (h : totalDuration slices < timelineEnd) :
    ofSlices slices = .ok (slices.foldl extend none) := by
  apply addAll_of_fits
  rwa [none, Nat.zero_add]

theorem ofSlices_of_not_fits {slices : List Slice} (h : timelineEnd ≤ totalDuration slices) :
    ∃ s ∈ slices, ofSlices slices = .error (.busyOverflow s.group s.ts) := by
  apply addAll_of_not_fits
  · decide
  · rwa [none, Nat.zero_add]

theorem ofSlices_eq_ok_iff {slices : List Slice} {b : Busy} :
    ofSlices slices = .ok b ↔ totalDuration slices < timelineEnd ∧ b = slices.foldl extend none := by
  by_cases h : totalDuration slices < timelineEnd
  · simp [ofSlices_of_fits h, h, eq_comm]
  · obtain ⟨s, -, he⟩ := ofSlices_of_not_fits (not_lt.mp h)
    simp [he, h]

end Busy

end GpuProfile
