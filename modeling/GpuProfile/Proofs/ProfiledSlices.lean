import GpuProfile.Proofs.SortedMapLaws
import GpuProfile.Proofs.TouchedIntervals
import GpuProfile.Trace.Prepared

namespace GpuProfile

namespace Timeline

variable (t : Timeline)

def Reaches (id : GroupId) (v : Interval) : Prop :=
  ∃ s ∈ t.slices, t.profiles s ∧ s.group = id ∧ s.Touches v

instance (id : GroupId) (v : Interval) : Decidable (t.Reaches id v) :=
  inferInstanceAs (Decidable (∃ s ∈ t.slices, _))

/-- The slices that count and touch the interval are no more than a word counts. -/
def Uncrowded (v : Interval) : Prop := v.load (t.slices.filter t.profiles) < UInt32.size

instance (v : Interval) : Decidable (t.Uncrowded v) := inferInstanceAs (Decidable (_ < _))

theorem prepare_slices_perm : t.prepare.slices.Perm (t.slices.filter t.profiles) := List.mergeSort_perm _ _

theorem load_prepare_slices (v : Interval) : v.load t.prepare.slices = v.load (t.slices.filter t.profiles) :=
  t.prepare_slices_perm.countP_eq _

theorem Uncrowded.tally_eq {t : Timeline} {v : Interval} (h : t.Uncrowded v) :
    v.tally t.prepare.slices = v.load t.prepare.slices :=
  Interval.tally_eq_load ((t.load_prepare_slices v).trans_lt h)

theorem prepare_ofGroup (id : GroupId) : t.prepare.ofGroup id = t.prepare.slices.filter (·.group = id) :=
  SortedMap.get?_groupBy Slice.group t.prepare.slices id

variable {t}

theorem profiles_congr {t' : Timeline} (h : t.groups = t'.groups) : t.profiles = t'.profiles := by
  funext s
  rw [profiles, profiles, declares, declares, h]

theorem mem_prepare_slices {s : Slice} : s ∈ t.prepare.slices ↔ s ∈ t.slices ∧ t.profiles s := by
  rw [t.prepare_slices_perm.mem_iff, List.mem_filter]

theorem mem_prepare_ofGroup {s : Slice} {id : GroupId} :
    s ∈ t.prepare.ofGroup id ↔ s ∈ t.slices ∧ t.profiles s ∧ s.group = id := by
  rw [prepare_ofGroup, List.mem_filter, mem_prepare_slices, and_assoc, decide_eq_true_eq]

theorem reaches_iff {id : GroupId} {v : Interval} :
    (∃ s ∈ t.prepare.ofGroup id, s.Touches v) ↔ t.Reaches id v := by
  simp only [mem_prepare_ofGroup, Reaches, and_assoc]

theorem mem_ids_of_profiles {s : Slice} (h : t.profiles s) : s.group ∈ t.groups.map (·.id) := by
  simp only [profiles, declares, Bool.and_eq_true, List.any_eq_true, beq_iff_eq] at h
  exact List.mem_map.mpr h.2

end Timeline

theorem sum_countP_filter_group {ids : List GroupId} (hn : ids.Nodup) (p : Slice → Bool) {xs : List Slice}
    (hx : ∀ s ∈ xs, s.group ∈ ids) :
    (ids.map fun id => (xs.filter (·.group = id)).countP p).sum = xs.countP p := by
  induction xs with
  | nil => simp
  | cons s rest ih =>
    rw [List.forall_mem_cons] at hx
    have hone : (ids.map fun id => if s.group = id then (if p s then 1 else 0) else 0).sum =
        if p s then 1 else 0 := by
      rw [← List.sum_toFinset _ hn, Finset.sum_ite_eq, if_pos (List.mem_toFinset.mpr hx.1)]
    rw [List.countP_cons, ← ih hx.2, ← hone, ← List.sum_map_add]
    congr 1
    apply List.map_congr_left
    intro id _
    by_cases he : s.group = id
    · simp [he, List.countP_cons]
    · simp [he]

namespace Timeline

variable {t : Timeline}

theorem sum_load_ofGroup (hn : (t.groups.map (·.id)).Nodup) (v : Interval) :
    ∑ g ∈ t.groups.toFinset, v.load (t.prepare.ofGroup g.id) = v.load t.prepare.slices := by
  have hids : ∀ s ∈ t.prepare.slices, s.group ∈ t.groups.map (·.id) :=
    fun s hs => mem_ids_of_profiles (mem_prepare_slices.mp hs).2
  rw [Interval.load, ← sum_countP_filter_group hn _ hids, List.map_map, List.sum_toFinset _ (List.Nodup.of_map _ hn)]
  simp only [prepare_ofGroup, Function.comp_def, Interval.load]

theorem load_ofGroup_le (id : GroupId) (v : Interval) :
    v.load (t.prepare.ofGroup id) ≤ v.load t.prepare.slices := by
  rw [prepare_ofGroup]
  exact List.filter_sublist.countP_le

end Timeline

end GpuProfile
