import GpuProfile.Proofs.TouchedIntervals
import GpuProfile.Trace.Validity

namespace GpuProfile

theorem firstRepeat_eq_none_iff {seen ids : List GroupId} :
    firstRepeat seen ids = none ↔ ids.Nodup ∧ ∀ id ∈ ids, id ∉ seen := by
  induction ids generalizing seen with
  | nil => simp [firstRepeat]
  | cons id rest ih =>
    by_cases h : id ∈ seen
    · simp [firstRepeat, h]
    · simp only [firstRepeat, h, if_false, ih, List.nodup_cons, List.mem_cons, not_or, forall_eq_or_imp,
        not_false_eq_true, true_and]
      constructor
      · rintro ⟨hn, hrest⟩
        exact ⟨⟨fun hm => (hrest id hm).1 rfl, hn⟩, fun x hx => (hrest x hx).2⟩
      · rintro ⟨⟨hid, hn⟩, hrest⟩
        exact ⟨hn, fun x hx => ⟨fun he => hid (he ▸ hx), hrest x hx⟩⟩

theorem firstDescent_eq_none_iff {index : ℕ} {ts : List UInt64} :
    firstDescent index ts = none ↔ ts.Pairwise (· < ·) := by
  fun_induction firstDescent index ts with
  | case1 index a b rest hlt ih =>
    rw [ih, List.pairwise_cons (a := a), List.forall_mem_cons]
    constructor
    · intro hp
      exact ⟨⟨hlt, fun x hx => UInt64.lt_trans hlt ((List.pairwise_cons.mp hp).1 x hx)⟩, hp⟩
    · exact fun hp => hp.2
  | case2 index a b rest hlt =>
    simp only [reduceCtorEq, List.pairwise_cons, List.forall_mem_cons, false_iff]
    exact fun hp => hlt hp.1.1
  | case3 ts index hshort =>
    match ts, hshort with
    | [], _ => simp
    | [a], _ => simp
    | a :: b :: rest, hshort => exact absurd rfl (hshort a b rest)

theorem checkSlices_eq_ok_iff {slices : List Slice} :
    checkSlices slices = .ok () ↔ ∀ s ∈ slices, s.start + s.duration < timelineEnd := by
  unfold checkSlices
  split
  · next s hs =>
    have hm := List.mem_of_find?_eq_some hs
    have hlate := List.find?_some hs
    simp only [decide_eq_true_eq] at hlate
    simp only [reduceCtorEq, false_iff]
    intro hall
    have hearly := hall s hm
    omega
  · next hs => simpa [List.find?_eq_none] using hs

namespace Counter

variable {α : Type} {c : Counter α}

theorem increasing_of_pairwise (h : c.timestamps.toList.Pairwise (· < ·)) : c.Increasing := by
  intro i j hij hj
  have hlt := List.pairwise_iff_getElem.mp h i j (by simp; omega) (by simpa using hj) hij
  have hi : i < c.timestamps.size := by omega
  simpa [time, hi, hj, UInt64.lt_iff_toNat_lt] using hlt

variable [Quantity α]

theorem check_eq_ok_iff : c.check = .ok () ↔ c.timestamps.size = c.values.size ∧
    c.timestamps.toList.Pairwise (· < ·) ∧ ∀ v ∈ c.values, Quantity.finite v = true := by
  have hfinite : (c.values.toList.findIdx? fun v => !Quantity.finite v) = none ↔
      ∀ v ∈ c.values, Quantity.finite v = true := by
    simp [List.findIdx?_eq_none_iff]
  rw [← @firstDescent_eq_none_iff 0, ← hfinite]
  unfold check
  split
  · next h => simp [h]
  · next h =>
    have hsize : c.timestamps.size = c.values.size := not_not.mp h
    split
    · next h' => simp [h']
    · next h' =>
      split
      · next hi => simp [hi]
      · next hi => simp [hsize, h', hi]

end Counter

variable {α : Type} [Quantity α]

theorem checkCounters_eq_ok_iff {cs : List (Counter α)} :
    checkCounters cs = .ok () ↔ ∀ c ∈ cs, c.check = .ok () := by
  induction cs with
  | nil => simp [checkCounters]
  | cons c rest ih =>
    rw [List.forall_mem_cons, ← ih, checkCounters]
    cases hc : c.check with
    | error d => simp [bind, Except.bind]
    | ok u => simp [bind, Except.bind]

theorem checkTraces_eq_ok_iff {t : Timeline} {cs : List (Counter α)} : checkTraces t cs = .ok () ↔
    (t.groups.map (·.id)).Nodup ∧ (∀ s ∈ t.slices, s.start + s.duration < timelineEnd) ∧
      ∀ c ∈ cs, c.check = .ok () := by
  have hrepeat := @firstRepeat_eq_none_iff [] (t.groups.map (·.id))
  simp only [List.not_mem_nil, not_false_eq_true, implies_true, and_true] at hrepeat
  rw [← hrepeat, ← checkSlices_eq_ok_iff, ← checkCounters_eq_ok_iff]
  unfold checkTraces
  cases hg : firstRepeat [] (t.groups.map (·.id)) with
  | some id => simp
  | none =>
    cases hs : checkSlices t.slices with
    | error d => simp [bind, Except.bind]
    | ok u => simp [bind, Except.bind]

theorem increasing_of_checkTraces {t : Timeline} {cs : List (Counter α)} (h : checkTraces t cs = .ok ())
    {c : Counter α} (hc : c ∈ cs) : c.Increasing :=
  Counter.increasing_of_pairwise (Counter.check_eq_ok_iff.mp ((checkTraces_eq_ok_iff.mp h).2.2 c hc)).2.1

end GpuProfile
