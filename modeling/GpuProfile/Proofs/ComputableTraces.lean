import GpuProfile.Proofs.BusyTotals
import GpuProfile.Proofs.LeafValues
import GpuProfile.Proofs.ProfiledSlices
import GpuProfile.Proofs.ValidTraces
import GpuProfile.Trace.Reader

namespace GpuProfile

variable {α : Type}

namespace Counter

theorem pairwise_of_increasing {c : Counter α} (h : c.Increasing) : c.timestamps.toList.Pairwise (· < ·) := by
  rw [List.pairwise_iff_getElem]
  intro i j hi hj hij
  simp only [Array.length_toList] at hi hj
  have hlt := h i j hij hj
  simpa [time, hi, hj, UInt64.lt_iff_toNat_lt] using hlt

theorem increasing_iff {c : Counter α} : c.Increasing ↔ c.timestamps.toList.Pairwise (· < ·) :=
  ⟨pairwise_of_increasing, increasing_of_pairwise⟩

end Counter

namespace Timeline

def ownSlices (t : Timeline) (id : GroupId) : List Slice := t.slices.filter fun s => s.depth = 0 ∧ s.group = id

theorem prepare_ofGroup_perm (t : Timeline) {id : GroupId} (h : id ∈ t.groups.map (·.id)) :
    (t.prepare.ofGroup id).Perm (t.ownSlices id) := by
  have hperm := t.prepare_slices_perm.filter (·.group = id)
  rw [← prepare_ofGroup, List.filter_filter] at hperm
  refine hperm.trans (List.Perm.of_eq (List.filter_congr fun s _ => ?_))
  obtain ⟨g, hg, rfl⟩ := List.mem_map.mp h
  by_cases hid : s.group = g.id
  · have hdeclared : t.declares s.group := List.any_eq_true.mpr ⟨g, hg, by simp [hid]⟩
    rw [profiles, hdeclared, Bool.eq_iff_iff]
    simp [hid]
  · simp [hid]

end Timeline

namespace Leaves

variable [Quantity α]

theorem setTimes_of_fits {p : Prepared} {ids : List GroupId} (leaves : Leaves α)
    (h : ∀ id ∈ ids, totalDuration (p.ofGroup id) < timelineEnd) : (leaves.setTimes p ids).2 = none := by
  induction ids generalizing leaves with
  | nil => rfl
  | cons id rest ih =>
    rw [List.forall_mem_cons] at h
    rw [setTimes, Busy.ofSlices_of_fits h.1]
    exact ih _ h.2

theorem setTimes_eq_some {p : Prepared} {ids : List GroupId} {leaves : Leaves α} {d : Defect}
    (h : (leaves.setTimes p ids).2 = some d) : ∃ id ∈ ids, timelineEnd ≤ totalDuration (p.ofGroup id) ∧
      ∃ s ∈ p.ofGroup id, d = .busyOverflow s.group s.ts := by
  induction ids generalizing leaves with
  | nil => cases h
  | cons id rest ih =>
    rw [setTimes] at h
    by_cases hfits : totalDuration (p.ofGroup id) < timelineEnd
    · rw [Busy.ofSlices_of_fits hfits] at h
      obtain ⟨id', hid', hdefect⟩ := ih h
      exact ⟨id', List.mem_cons_of_mem _ hid', hdefect⟩
    · obtain ⟨s, hs, he⟩ := Busy.ofSlices_of_not_fits (not_lt.mp hfits)
      rw [he] at h
      cases h
      exact ⟨id, List.mem_cons_self, not_lt.mp hfits, s, hs, rfl⟩

end Leaves

variable [Quantity α]

namespace Profile

variable {t : Timeline} {cs : List (Counter α)}

theorem leavesOf_isOk_iff (hn : (t.groups.map (·.id)).Nodup) : (∃ leaves, leavesOf t cs = .ok leaves) ↔
    ∀ g ∈ t.groups, totalDuration (t.ownSlices g.id) < timelineEnd := by
  have hown : ∀ g ∈ t.groups, totalDuration (t.prepare.ofGroup g.id) = totalDuration (t.ownSlices g.id) :=
    fun g hg => totalDuration_perm (t.prepare_ofGroup_perm (List.mem_map_of_mem hg))
  constructor
  · rintro ⟨leaves, h⟩ g hg
    obtain ⟨timed, ht, -⟩ := leavesOf_eq_ok_iff.mp h
    obtain ⟨-, b, hb, -⟩ := Leaves.value?_timed hn ht (List.mem_map_of_mem hg)
    rw [← hown g hg]
    exact (Busy.ofSlices_eq_ok_iff.mp hb).1
  · intro h
    refine ⟨_, leavesOf_eq_ok_iff.mpr ⟨_, Prod.ext rfl (Leaves.setTimes_of_fits _ fun id hid => ?_), rfl⟩⟩
    obtain ⟨g, hg, rfl⟩ := List.mem_map.mp ((Leaves.mem_keys_ofGroups hn).mp hid)
    rw [hown g hg]
    exact h g hg

theorem leavesOf_eq_error (hn : (t.groups.map (·.id)).Nodup) {d : Defect} (h : leavesOf t cs = .error d) :
    ∃ g ∈ t.groups, timelineEnd ≤ totalDuration (t.ownSlices g.id) ∧
      ∃ s ∈ t.ownSlices g.id, d = .busyOverflow g.id s.ts := by
  unfold leavesOf at h
  dsimp only at h
  split at h
  · next timed d' ht =>
    cases h
    obtain ⟨id, hid, hover, s, hs, rfl⟩ := Leaves.setTimes_eq_some (congrArg Prod.snd ht)
    rw [Leaves.mem_keys_ofGroups hn] at hid
    have hperm := t.prepare_ofGroup_perm hid
    obtain ⟨g, hg, rfl⟩ := List.mem_map.mp hid
    refine ⟨g, hg, ?_, s, hperm.mem_iff.mp hs, ?_⟩
    · rwa [← totalDuration_perm hperm]
    · rw [(Timeline.mem_prepare_ofGroup.mp hs).2.2]
  · cases h

theorem compute_eq_error_of_checked (hcheck : checkTraces t cs = .ok ()) {d : Defect} (h : compute t cs = .error d) :
    leavesOf t cs = .error d := by
  rw [compute_of_checked hcheck] at h
  cases hl : leavesOf t cs with
  | error d' =>
    rw [hl] at h
    cases h
    rfl
  | ok leaves =>
    rw [hl] at h
    cases h

end Profile

namespace Warned

variable {ε τ ρ : Type}

theorem run_bind_eq_ok {x : Warned ε τ} {f : τ → Warned ε ρ} {ws ws' : List Warning} {r : ρ}
    (h : (x >>= f).run.run ws = (.ok r, ws')) :
    ∃ v ws₁, x.run.run ws = (.ok v, ws₁) ∧ (f v).run.run ws₁ = (.ok r, ws') := by
  rw [ExceptT.run_bind, StateT.run_bind] at h
  generalize hx : x.run.run ws = out at h
  obtain ⟨outcome, ws₁⟩ := out
  cases outcome with
  | error e => cases h
  | ok v => exact ⟨v, ws₁, rfl, h⟩

end Warned

namespace Capture

theorem checkTraces_of_ofValue {v : Json.Value} {capture : Capture Float} {ws : List Warning}
    (h : (ofValue v).outcome = (.ok capture, ws)) : checkTraces capture.timeline capture.counters = .ok () := by
  unfold ofValue at h
  split at h
  · obtain ⟨_, _, -, h⟩ := Warned.run_bind_eq_ok h
    obtain ⟨_, _, -, h⟩ := Warned.run_bind_eq_ok h
    obtain ⟨groups, _, -, h⟩ := Warned.run_bind_eq_ok h
    obtain ⟨slices, _, -, h⟩ := Warned.run_bind_eq_ok h
    obtain ⟨counters, _, -, h⟩ := Warned.run_bind_eq_ok h
    obtain ⟨_, _, hcheck, h⟩ := Warned.run_bind_eq_ok h
    cases h
    cases hc : checkTraces ⟨slices, groups⟩ counters with
    | error d =>
      rw [hc] at hcheck
      cases hcheck
    | ok u => rfl
  · cases h

end Capture

namespace Profile

/-- What traces have to be like to have a profile. -/
structure Computable (t : Timeline) (cs : List (Counter α)) : Prop where
  distinct : (t.groups.map (·.id)).Nodup
  ends : ∀ s ∈ t.slices, s.start + s.duration < timelineEnd
  lengths : ∀ c ∈ cs, c.timestamps.size = c.values.size
  increasing : ∀ c ∈ cs, c.Increasing
  finite : ∀ c ∈ cs, ∀ x ∈ c.values, Quantity.finite x = true
  busy : ∀ g ∈ t.groups, totalDuration (t.ownSlices g.id) < timelineEnd

theorem computable_iff {t : Timeline} {cs : List (Counter α)} : Computable t cs ↔ checkTraces t cs = .ok () ∧
    ∀ g ∈ t.groups, totalDuration (t.ownSlices g.id) < timelineEnd := by
  rw [checkTraces_eq_ok_iff]
  simp only [Counter.check_eq_ok_iff, ← Counter.increasing_iff]
  constructor
  · intro h
    exact ⟨⟨h.distinct, h.ends, fun c hc => ⟨h.lengths c hc, h.increasing c hc, h.finite c hc⟩⟩, h.busy⟩
  · rintro ⟨⟨hn, hends, hcounters⟩, hbusy⟩
    exact ⟨hn, hends, fun c hc => (hcounters c hc).1, fun c hc => (hcounters c hc).2.1,
      fun c hc => (hcounters c hc).2.2, hbusy⟩

theorem Computable.fits {t : Timeline} {cs : List (Counter α)} (h : Computable t cs) {id : GroupId}
    (hid : id ∈ t.groups.map (·.id)) : totalDuration (t.prepare.ofGroup id) < timelineEnd := by
  rw [totalDuration_perm (t.prepare_ofGroup_perm hid)]
  obtain ⟨g, hg, rfl⟩ := List.mem_map.mp hid
  exact h.busy g hg

theorem compute_isOk_iff {t : Timeline} {cs : List (Counter α)} :
    (∃ p, compute t cs = .ok p) ↔ Computable t cs := by
  simp only [computable_iff, compute_eq_ok_iff]
  constructor
  · rintro ⟨p, hcheck, leaves, hleaves, -⟩
    exact ⟨hcheck, (leavesOf_isOk_iff (checkTraces_eq_ok_iff.mp hcheck).1).mp ⟨leaves, hleaves⟩⟩
  · rintro ⟨hcheck, hbusy⟩
    have hexists : ∃ leaves, leavesOf t cs = .ok leaves :=
      (leavesOf_isOk_iff (checkTraces_eq_ok_iff.mp hcheck).1).mpr hbusy
    obtain ⟨leaves, hleaves⟩ := hexists
    exact ⟨_, hcheck, leaves, hleaves, rfl⟩

/-- A profile exists for just the computable traces, and any others are reported as invalid. For a capture
that was read there is one thing left to report: a group with more work than the timeline holds. -/
theorem computes_iff_computable (t : Timeline) (cs : List (Counter α)) :
    ((∃ p, compute t cs = .ok p) ↔ Computable t cs) ∧
    (¬Computable t cs → ∃ d, compute t cs = .error d ∧ d.message = "Invalid profiling data: " ++ d.detail) ∧
    ∀ v capture ws, (Capture.ofValue v).outcome = (.ok capture, ws) →
      ∀ d, compute capture.timeline capture.counters = .error d →
        ∃ g ∈ capture.timeline.groups, timelineEnd ≤ totalDuration (capture.timeline.ownSlices g.id) ∧
          ∃ s ∈ capture.timeline.ownSlices g.id, d = .busyOverflow g.id s.ts := by
  refine ⟨compute_isOk_iff, fun hnot => ?_, fun v capture ws hread d hd => ?_⟩
  · rw [← compute_isOk_iff] at hnot
    cases h : compute t cs with
    | error d => exact ⟨d, rfl, rfl⟩
    | ok p => exact absurd ⟨p, h⟩ hnot
  · have hcheck := Capture.checkTraces_of_ofValue hread
    exact leavesOf_eq_error (checkTraces_eq_ok_iff.mp hcheck).1 (compute_eq_error_of_checked hcheck hd)

def Overload.value : Json.Value :=
  let slice : Json.Value := .object [("dur", .number (.integer 9223372036854775807)),
    ("group_id", .number (.integer 1)), ("ts", .number (.integer 0))]
  .object [("counters", .array []), ("groups", .array [.object [("id", .number (.integer 1)),
    ("indices", .array [.number (.integer 0)])]]), ("slices", .array [slice, slice, slice])]

def Overload.capture : Capture Float :=
  ⟨⟨List.replicate 3 ⟨1, 0, 0, 9223372036854775807⟩, [⟨1, ⟨[0]⟩⟩]⟩, []⟩

theorem overload_fails : (Capture.ofValue Overload.value).outcome = (.ok Overload.capture, []) ∧
    ∃ d, compute Overload.capture.timeline Overload.capture.counters = .error d ∧
      ∃ g ∈ Overload.capture.timeline.groups,
        timelineEnd ≤ totalDuration (Overload.capture.timeline.ownSlices g.id) ∧
        ∃ s ∈ Overload.capture.timeline.ownSlices g.id, d = .busyOverflow g.id s.ts := by
  have hread : (Capture.ofValue Overload.value).outcome = (.ok Overload.capture, []) := rfl
  obtain ⟨-, hfails, hparsed⟩ := computes_iff_computable Overload.capture.timeline Overload.capture.counters
  obtain ⟨d, hd, -⟩ := hfails fun h => absurd (h.busy ⟨1, ⟨[0]⟩⟩ (by decide)) (by decide)
  exact ⟨hread, d, hd, hparsed _ _ _ hread d hd⟩

end Profile

end GpuProfile
