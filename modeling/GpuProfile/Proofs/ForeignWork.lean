import GpuProfile.Proofs.CrowdedIntervals
import GpuProfile.Proofs.ExactMerge
import GpuProfile.Proofs.SliceOrder

namespace GpuProfile

theorem Interval.load_mono (v : Interval) {slices slices' : List Slice} (h : slices.Subperm slices') :
    v.load slices ≤ v.load slices' := h.countP_le _

theorem share_le_one (count : ℕ) : (share count : ℚ) ≤ 1 := by
  rcases Nat.eq_zero_or_pos count with rfl | hc
  · simp [share_exact]
  · have hone : 1 ≤ count := hc
    simpa using mul_share_le_one hone

theorem share_antitone {count count' : ℕ} (h : count ≤ count') : (share count' : ℚ) ≤ share count := by
  by_cases hc : 1 < count
  · have hpos : (0 : ℚ) < count := by exact_mod_cast (by omega : 0 < count)
    have hcast : (count : ℚ) ≤ count' := by exact_mod_cast h
    rw [share_exact, share_exact, if_pos hc, if_pos (by omega)]
    exact one_div_le_one_div_of_le hpos hcast
  · rw [share_exact count, if_neg hc]
    exact share_le_one count'

namespace Credit

variable {α : Type} [Quantity α]

theorem foldl_add_isSome (v : Interval) (count : ℕ) {credit : Credit α}
    (h : credit.estimate.isSome = credit.max.isSome) (xs : List Slice) :
    (xs.foldl (add v count) credit).estimate.isSome = (xs.foldl (add v count) credit).max.isSome := by
  induction xs generalizing credit with
  | nil => exact h
  | cons s rest ih =>
    rw [List.foldl_cons]
    apply ih
    by_cases hs : s.Surrounds v <;> simp [add, hs]

theorem ofSlices_isSome (v : Interval) (count : ℕ) (slices : List Slice) :
    (ofSlices v count slices : Credit α).estimate.isSome = (ofSlices v count slices : Credit α).max.isSome :=
  foldl_add_isSome v count rfl _

theorem ofSlices_min_antitone {v : Interval} {count count' : ℕ} (h : count ≤ count') {slices : List Slice} {x : α}
    (hx : (ofSlices v count' slices : Credit α).min = some x) : (ofSlices v count slices : Credit α).min = some x := by
  rw [ofSlices_min] at hx ⊢
  obtain ⟨⟨hcount, hs⟩, hone⟩ := Option.ite_none_right_eq_some.mp hx
  rw [if_pos ⟨h.trans hcount, hs⟩, hone]

theorem add_estimate_antitone (v : Interval) {count count' : ℕ} (h : count ≤ count') (s : Slice)
    {credit credit' : Credit ℚ} (hle : credit'.estimate.getD 0 ≤ credit.estimate.getD 0) :
    (add v count' credit' s).estimate.getD 0 ≤ (add v count credit s).estimate.getD 0 := by
  have hshare := share_antitone h
  by_cases hs : s.Surrounds v
  · simpa [add, hs] using hshare
  · have hpart := mul_le_mul_of_nonneg_left hshare (coverage_nonneg v s)
    simp only [add, hs, if_false, Option.getD_some]
    linarith

theorem ofSlices_estimate_antitone (v : Interval) {count count' : ℕ} (h : count ≤ count') (slices : List Slice) :
    (ofSlices v count' slices : Credit ℚ).estimate.getD 0 ≤ (ofSlices v count slices : Credit ℚ).estimate.getD 0 :=
  List.foldl_rel (r := fun x y : Credit ℚ => x.estimate.getD 0 ≤ y.estimate.getD 0) (le_refl _)
    fun s _ _ _ hle => add_estimate_antitone v h s hle

end Credit

namespace Prepared

/-- Among the second slices, a group has the samples of a counter that it has among the first. Where all slices can be
counted it has no more of them for certain, and of none a greater part. -/
structure LessCertain {α : Type} [Quantity α] (p p' : Prepared) (c : Counter α) (id : GroupId) : Prop where
  max : (p'.weights c id).max = (p.weights c id).max
  keys : (p'.weights c id).estimate.keys = (p.weights c id).estimate.keys
  min : ∀ i, (c.interval i).load p'.slices < UInt32.size → ∀ x,
    (p'.weights c id).min.get? i = some x → (p.weights c id).min.get? i = some x
  estimate : ∀ exact : Counter ℚ, exact.timestamps = c.timestamps →
    ∀ i, (c.interval i).load p'.slices < UInt32.size → ∀ x x',
      (p.weights exact id).estimate.get? i = some x → (p'.weights exact id).estimate.get? i = some x' → x' ≤ x

variable {p p' : Prepared} {id : GroupId} (hown : p'.ofGroup id = p.ofGroup id)

section

include hown

-- The two runs take in the same slices; they only count differently.
theorem sample_weights {α : Type} [Quantity α] {c : Counter α} (h : c.Increasing) (i : ℕ) : ∃ own,
    (p.weights c id).sample i = Credit.ofSlices (c.interval i) ((c.interval i).tally p.slices) own ∧
      (p'.weights c id).sample i = Credit.ofSlices (c.interval i) ((c.interval i).tally p'.slices) own := by
  by_cases hi : i ∈ c.samples
  · refine ⟨p.ofGroup id, weights_sample h p id hi, ?_⟩
    rw [weights_sample h p' id hi, hown]
  · exact ⟨[], sample_eq_none h p id fun hm => hi hm.1, sample_eq_none h p' id fun hm => hi hm.1⟩

theorem max_eq {α : Type} [Quantity α] {c : Counter α} (h : c.Increasing) :
    (p'.weights c id).max = (p.weights c id).max := by
  apply SortedMap.ext_get?
  intro i
  obtain ⟨own, hsample, hsample'⟩ := sample_weights hown h i
  have hmax : (p.weights c id).max.get? i = _ := congrArg Credit.max hsample
  have hmax' : (p'.weights c id).max.get? i = _ := congrArg Credit.max hsample'
  rw [hmax, hmax', Credit.ofSlices_max, Credit.ofSlices_max]

theorem keys_eq {α : Type} [Quantity α] {c : Counter α} (h : c.Increasing) :
    (p'.weights c id).estimate.keys = (p.weights c id).estimate.keys := by
  apply SortedMap.keys_congr
  intro i
  obtain ⟨own, hsample, hsample'⟩ := sample_weights hown h i
  have he : (p.weights c id).estimate.get? i = _ := congrArg Credit.estimate hsample
  have he' : (p'.weights c id).estimate.get? i = _ := congrArg Credit.estimate hsample'
  rw [he, he', Credit.ofSlices_isSome, Credit.ofSlices_isSome, Credit.ofSlices_max, Credit.ofSlices_max]

end

variable (hmore : p.slices.Subperm p'.slices)

section

include hmore

theorem tally_le {v : Interval} (hfew : v.load p'.slices < UInt32.size) : v.tally p.slices ≤ v.tally p'.slices := by
  have hle := v.load_mono hmore
  rw [Interval.tally_eq_load hfew, Interval.tally_eq_load (hle.trans_lt hfew)]
  exact hle

end

include hown hmore

theorem min_antitone {α : Type} [Quantity α] {c : Counter α} (h : c.Increasing) {i : ℕ}
    (hfew : (c.interval i).load p'.slices < UInt32.size) {x : α} (hx : (p'.weights c id).min.get? i = some x) :
    (p.weights c id).min.get? i = some x := by
  obtain ⟨own, hsample, hsample'⟩ := sample_weights hown h i
  have hmin : (p.weights c id).min.get? i = _ := congrArg Credit.min hsample
  have hmin' : (p'.weights c id).min.get? i = _ := congrArg Credit.min hsample'
  rw [hmin]
  exact Credit.ofSlices_min_antitone (tally_le hmore hfew) (hmin'.symm.trans hx)

theorem estimate_antitone {c : Counter ℚ} (h : c.Increasing) {i : ℕ}
    (hfew : (c.interval i).load p'.slices < UInt32.size) {x x' : ℚ}
    (hx : (p.weights c id).estimate.get? i = some x) (hx' : (p'.weights c id).estimate.get? i = some x') : x' ≤ x := by
  obtain ⟨own, hsample, hsample'⟩ := sample_weights hown h i
  have he : (p.weights c id).estimate.get? i = _ := congrArg Credit.estimate hsample
  have he' : (p'.weights c id).estimate.get? i = _ := congrArg Credit.estimate hsample'
  have hle := Credit.ofSlices_estimate_antitone (c.interval i) (tally_le hmore hfew) own
  rwa [← he, ← he', hx, hx'] at hle

theorem lessCertain {α : Type} [Quantity α] {c : Counter α} (h : c.Increasing) : p.LessCertain p' c id where
  max := max_eq hown h
  keys := keys_eq hown h
  min _ hfew _ := min_antitone hown hmore h hfew
  estimate exact ht i hfew _ _ := by
    have hexact : exact.Increasing := by
      simp only [Counter.Increasing, Counter.time, ht]
      exact h
    have hinterval : exact.interval i = c.interval i := by
      simp only [Counter.interval, Counter.time, ht]
    exact estimate_antitone hown hmore hexact (hinterval ▸ hfew)

end Prepared

namespace Timeline

variable {t t' : Timeline} {more : List Slice}

section

variable (hgroups : t'.groups = t.groups) (hperm : t'.slices.Perm (t.slices ++ more))

include hgroups hperm

theorem prepare_slices_subperm : t.prepare.slices.Subperm t'.prepare.slices := by
  have hprofiled : (t'.slices.filter t'.profiles).Perm (t.slices.filter t.profiles ++ more.filter t.profiles) := by
    rw [profiles_congr hgroups, ← List.filter_append]
    exact hperm.filter _
  have hboth := (t'.prepare_slices_perm.trans hprofiled).symm
  exact (t.prepare_slices_perm.subperm.trans (List.sublist_append_left _ _).subperm).trans hboth.subperm

theorem ofGroup_eq_of_foreign {id : GroupId} (hkept : t.slices.Sublist t'.slices) (hforeign : ∀ s ∈ more, s.group ≠ id) :
    t'.prepare.ofGroup id = t.prepare.ofGroup id := by
  have hnone : (more.filter t.profiles).filter (·.group = id) = [] := by
    rw [List.filter_eq_nil_iff]
    intro s hs
    simpa using hforeign s (List.mem_filter.mp hs).1
  have hown : ((t'.slices.filter t.profiles).filter (·.group = id)).Perm ((t.slices.filter t.profiles).filter (·.group = id)) := by
    have hfilter := (hperm.filter t.profiles).filter (·.group = id)
    rwa [List.filter_append, List.filter_append, hnone, List.append_nil] at hfilter
  have hsub := (hkept.filter t.profiles).filter (·.group = id)
  rw [ofGroup_eq_mergeSort, ofGroup_eq_mergeSort, profiles_congr hgroups, hsub.eq_of_length hown.length_eq.symm]

end

/-- Slices of other groups leave a group its samples, and can only take from what it is sure of and from its
parts; so do slices of other groups among the slices of a timeline, wherever they stand. -/
theorem foreign_work_dilutes {α : Type} [Quantity α] {cs : List (Counter α)} (h : checkTraces t cs = .ok ())
    {c : Counter α} (hc : c ∈ cs) (id : GroupId) (more : List Slice) :
    (∀ p : Prepared, p.slices.Perm (t.prepare.slices ++ more) → p.ofGroup id = t.prepare.ofGroup id →
      t.prepare.LessCertain p c id) ∧
    ∀ t' : Timeline, t'.groups = t.groups → t.slices.Sublist t'.slices → t'.slices.Perm (t.slices ++ more) →
      (∀ s ∈ more, s.group ≠ id) →
      t'.prepare.ofGroup id = t.prepare.ofGroup id ∧ t.prepare.LessCertain t'.prepare c id := by
  have hinc : c.Increasing := increasing_of_checkTraces h hc
  constructor
  · intro p hperm hown
    have hsub := (List.sublist_append_left t.prepare.slices more).subperm
    exact Prepared.lessCertain hown (hsub.trans hperm.symm.subperm) hinc
  · intro t' hgroups hkept hperm hforeign
    have hown := ofGroup_eq_of_foreign hgroups hperm hkept hforeign
    exact ⟨hown, Prepared.lessCertain hown (prepare_slices_subperm hgroups hperm) hinc⟩

def Sketch.crowded : Timeline := { Sketch.timeline with slices := ⟨2, 0, 8, 4⟩ :: Sketch.timeline.slices }

theorem crowded_dilutes : checkTraces Sketch.timeline [Sketch.reads] = .ok () ∧
    Sketch.timeline.prepare.LessCertain ⟨Sketch.timeline.prepare.slices ++ [⟨2, 0, 8, 4⟩],
      Sketch.timeline.prepare.byGroup⟩ Sketch.reads 1 ∧
    Sketch.timeline.prepare.LessCertain Sketch.crowded.prepare Sketch.reads 1 ∧
    (Sketch.timeline.prepare.weights Sketch.reads 1).min.get? 2 = some 1 ∧
    (Sketch.crowded.prepare.weights Sketch.reads 1).min.get? 2 = none ∧
    (Sketch.crowded.prepare.weights Sketch.reads 1).estimate.get? 2 = some (1 / 2) := by
  have hcheck : checkTraces Sketch.timeline [Sketch.reads] = .ok () := by decide
  have hperm : Sketch.crowded.slices.Perm (Sketch.timeline.slices ++ [⟨2, 0, 8, 4⟩]) := by decide
  obtain ⟨hfed, hadded⟩ := foreign_work_dilutes hcheck (List.mem_singleton_self Sketch.reads) 1 [⟨2, 0, 8, 4⟩]
  have hless := (hadded Sketch.crowded rfl (List.sublist_cons_self _ _) hperm (by decide)).2
  exact ⟨hcheck, hfed _ (.refl _) rfl, hless, by cbv, by cbv, by cbv⟩

-- So many slices of the second group that the count starts over give the first one back what they shared.
theorem crowd_certain_again :
    checkTraces (Crowd.timeline 1 1) [Crowd.reads] = .ok () ∧
    checkTraces (Crowd.timeline 1 (2 ^ 32 - 1)) [Crowd.reads] = .ok () ∧
    (Crowd.timeline 1 (2 ^ 32 - 1)).slices =
      (Crowd.timeline 1 1).slices ++ List.replicate (2 ^ 32 - 2) ⟨2, 0, 0, 30⟩ ∧
    ((Crowd.timeline 1 1).prepare.weights Crowd.reads 1).sample 1 = ⟨some (1 / 2), none, some 1⟩ ∧
    ((Crowd.timeline 1 (2 ^ 32 - 1)).prepare.weights Crowd.reads 1).sample 1 = ⟨some 1, some 1, some 1⟩ := by
  have hown : ∀ m, ∃ s ∈ (Crowd.timeline 1 m).slices, s.group = 1 := fun m => ⟨_, List.mem_cons_self, rfl⟩
  refine ⟨Crowd.checks, Crowd.checks, Crowd.slices_add 1 1 (2 ^ 32 - 2), ?_, ?_⟩
  · rw [Crowd.sample_one (hown 1)]
    norm_num [share_exact, UInt32.size]
  · rw [Crowd.sample_one (hown (2 ^ 32 - 1))]
    norm_num [share_exact, UInt32.size]

end Timeline

end GpuProfile
