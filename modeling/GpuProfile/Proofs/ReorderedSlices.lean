import GpuProfile.Proofs.ComputableTraces
import GpuProfile.Proofs.EntryValues
import GpuProfile.Proofs.SliceOrder

namespace GpuProfile

namespace Timeline

variable {t t' : Timeline}

theorem keepsOrder_of_groups {α : Type} {c : Counter α} (h : ∀ g ∈ t.groups, t.KeepsOrder t' c g.id) (id : GroupId) :
    t.KeepsOrder t' c id := by
  intro a ha hpa
  obtain ⟨g, hg, hid⟩ := List.mem_map.mp (mem_ids_of_profiles hpa.1)
  have hgroup : g.id = id := hid.trans hpa.2
  subst hgroup
  exact h g hg a ha hpa

namespace Reordered

theorem symm (h : t.Reordered t') : t'.Reordered t := ⟨h.groups.symm, h.slices.symm⟩

variable (h : t.Reordered t')

include h

theorem computable {α : Type} [Quantity α] {cs : List (Counter α)} (hc : Profile.Computable t cs) :
    Profile.Computable t' cs where
  distinct := h.groups ▸ hc.distinct
  ends s hs := hc.ends s (h.slices.mem_iff.mpr hs)
  lengths := hc.lengths
  increasing := hc.increasing
  finite := hc.finite
  busy g hg := by
    have hperm : (t.ownSlices g.id).Perm (t'.ownSlices g.id) := h.slices.filter _
    rw [← totalDuration_perm hperm]
    exact hc.busy g (h.groups ▸ hg)

theorem busy_ofSlices_eq {id : GroupId} (hfits : totalDuration (t.prepare.ofGroup id) < timelineEnd) :
    Busy.ofSlices (t.prepare.ofGroup id) = Busy.ofSlices (t'.prepare.ofGroup id) := by
  have hfits' : totalDuration (t'.prepare.ofGroup id) < timelineEnd := by
    rwa [← totalDuration_perm (h.ofGroup_perm id)]
  rw [Busy.ofSlices_of_fits hfits, Busy.ofSlices_of_fits hfits', h.busy_eq]

theorem perf?_eq {c : Counter ℚ} (hc : c.Increasing) {id : GroupId} (hkeep : t.KeepsOrder t' c id) :
    t.prepare.perf? c id = t'.prepare.perf? c id := by
  rw [Prepared.perf?, Prepared.perf?, h.weights_eq hc hkeep]

end Reordered

end Timeline

namespace Profile

section

variable {t t' : Timeline} (h : t.Reordered t') {cs : List (Counter ℚ)} (hc : Computable t cs)

include h hc

theorem leavesOf_reordered
    (hkeep : ∀ c ∈ cs, c.operator.isSupported → ∀ g ∈ t.groups, t.KeepsOrder t' c g.id) :
    leavesOf t cs = leavesOf t' cs := by
  refine leavesOf_congr h.groups (fun id hid => congrArg _ ?_) (List.forall₂_same.mpr fun c hm => ⟨rfl, fun hs id => ?_⟩)
  · exact h.busy_ofSlices_eq (hc.fits ((Leaves.mem_keys_ofGroups hc.distinct).mp hid))
  · exact h.perf?_eq (hc.increasing c hm) (Timeline.keepsOrder_of_groups (hkeep c hm hs) id)

variable {leaves leaves' : Leaves ℚ} (hl : leavesOf t cs = .ok leaves) (hl' : leavesOf t' cs = .ok leaves')

include hl hl'

theorem command?_reordered (id : GroupId) : leaves.command? id = leaves'.command? id :=
  command?_congr hl hl' hc.distinct h.groups id

theorem times_reordered (hsize : cs.length + 2 ≤ UInt32.size) {g : Group} (hg : g ∈ t.groups) :
    leaves.value? g.id Metric.gpuTime.id = leaves'.value? g.id Metric.gpuTime.id ∧
      leaves.value? g.id Metric.wallTime.id = leaves'.value? g.id Metric.wallTime.id :=
  times_congr hl hl' hc.distinct h.groups hsize hsize hg (h.busy_ofSlices_eq (hc.fits (List.mem_map_of_mem hg)))

theorem counter_reordered (hsize : cs.length + 2 ≤ UInt32.size) {k : ℕ} {c : Counter ℚ} (hk : cs[k]? = some c)
    (hs : c.operator.isSupported) {g : Group} (hg : g ∈ t.groups) (hkeep : t.KeepsOrder t' c g.id) :
    leaves.value? g.id (Metric.ofCounter k c).id = leaves'.value? g.id (Metric.ofCounter k c).id := by
  have hn' : (t'.groups.map (·.id)).Nodup := h.groups ▸ hc.distinct
  rw [leavesOf_counter hl hc.distinct hsize hg hk hs, leavesOf_counter hl' hn' hsize (h.groups ▸ hg) hk hs,
    h.perf?_eq (hc.increasing c (List.mem_of_getElem? hk)) hkeep]

theorem value_reordered (hsize : cs.length + 2 ≤ UInt32.size) {e e' : Entry ℚ} (he : e ∈ leaves.merge (metricsOf cs))
    (he' : e' ∈ leaves'.merge (metricsOf cs)) (hsame : e.command = e'.command) {metric : Metric}
    (hm : metric ∈ metricsOf cs)
    (hvalue : metric.operator.isSupported → ∀ g ∈ t.groups, e.command.IsAbove g.command →
      leaves.value? g.id metric.id = leaves'.value? g.id metric.id) :
    e.values.get? metric.id = e'.values.get? metric.id := by
  have htimes : ∀ g ∈ t.groups, leaves.value? g.id Metric.gpuTime.id = leaves'.value? g.id Metric.gpuTime.id :=
    fun g hg => (times_reordered h hc hl hl' hsize hg).1
  exact entry_congr hl hl' hc.distinct h.groups hsize hsize htimes he he' hsame hm hm rfl hvalue

end

/-- The order of the slices does not decide whether there is a profile, and it shows in a profile only where slices
of one group that take samples of a counter from one another have changed places: in the values of this
counter, at the commands above the group. -/
theorem reordered_slices {t t' : Timeline} (h : t.Reordered t') (cs : List (Counter ℚ)) :
    ((∃ p, compute t cs = .ok p) ↔ ∃ p, compute t' cs = .ok p) ∧
    ∀ p p', compute t cs = .ok p → compute t' cs = .ok p' →
      p.metrics = p'.metrics ∧ p.entries.map (·.command) = p'.entries.map (·.command) ∧
      ((∀ c ∈ cs, c.operator.isSupported → ∀ g ∈ t.groups, t.KeepsOrder t' c g.id) → p = p') ∧
      (cs.length + 2 ≤ UInt32.size → ∀ e ∈ p.entries, ∀ e' ∈ p'.entries, e.command = e'.command →
        e.values.get? Metric.gpuTime.id = e'.values.get? Metric.gpuTime.id ∧
        e.values.get? Metric.wallTime.id = e'.values.get? Metric.wallTime.id ∧
        ∀ k c, cs[k]? = some c →
          (∀ g ∈ t.groups, e.command.IsAbove g.command → t.KeepsOrder t' c g.id) →
            e.values.get? (Metric.ofCounter k c).id = e'.values.get? (Metric.ofCounter k c).id) := by
  refine ⟨?_, fun p p' hp hp' => ?_⟩
  · rw [compute_isOk_iff, compute_isOk_iff]
    exact ⟨h.computable, h.symm.computable⟩
  · have hc : Computable t cs := compute_isOk_iff.mp ⟨p, hp⟩
    obtain ⟨-, leaves, hl, rfl⟩ := compute_eq_ok_iff.mp hp
    obtain ⟨-, leaves', hl', rfl⟩ := compute_eq_ok_iff.mp hp'
    refine ⟨rfl, ?_, fun hkeep => ?_, fun hsize e he e' he' hsame => ⟨?_, ?_, fun k c hk hkeep => ?_⟩⟩
    · exact Leaves.merge_commands_congr (command?_reordered h hc hl hl') _ _
    · rw [leavesOf_reordered h hc hkeep, hl'] at hl
      rw [Except.ok.inj hl]
    · exact value_reordered h hc hl hl' hsize he he' hsame (mem_metricsOf.mpr (.inl rfl)) fun _ g hg _ =>
        (times_reordered h hc hl hl' hsize hg).1
    · exact value_reordered h hc hl hl' hsize he he' hsame (mem_metricsOf.mpr (.inr (.inl rfl))) fun _ g hg _ =>
        (times_reordered h hc hl hl' hsize hg).2
    · exact value_reordered h hc hl hl' hsize he he' hsame (ofCounter_mem_metricsOf hk) fun hs g hg habove =>
        counter_reordered h hc hl hl' hsize hk hs hg (hkeep g hg habove)

def Tie.long : Slice := ⟨1, 0, 5, 20⟩

def Tie.short : Slice := ⟨1, 0, 5, 10⟩

def Tie.late : Slice := ⟨1, 0, 25, 5⟩

def Tie.timeline (slices : List Slice) : Timeline := ⟨slices, [⟨1, ⟨[0]⟩⟩]⟩

def Tie.listed : Timeline := timeline [long, short, late]

def Tie.lateFirst : Timeline := timeline [late, long, short]

def Tie.shortFirst : Timeline := timeline [short, long, late]

def Tie.reads : Counter ℚ := ⟨"Reads", "", #[0, 10, 20, 30], #[0, 1, 1, 1], .summation⟩

theorem late_first_agrees : Tie.listed.Reordered Tie.lateFirst ∧
    (∀ g ∈ Tie.listed.groups, Tie.listed.KeepsOrder Tie.lateFirst Tie.reads g.id) ∧
    ∃ p, compute Tie.listed [Tie.reads] = .ok p ∧ compute Tie.lateFirst [Tie.reads] = .ok p := by
  have hperm : Tie.listed.Reordered Tie.lateFirst := ⟨rfl, by decide⟩
  have hkeep : ∀ g ∈ Tie.listed.groups, Tie.listed.KeepsOrder Tie.lateFirst Tie.reads g.id := by decide
  have hcount : (compute Tie.listed [Tie.reads]).toOption.map (·.entries.length) = some 1 := by cbv
  obtain ⟨p, hp, -⟩ := ok_of_toOption_map hcount
  obtain ⟨hiff, hsame⟩ := reordered_slices hperm [Tie.reads]
  obtain ⟨p', hp'⟩ := hiff.mp ⟨p, hp⟩
  have he : p = p' := (hsame p p' hp hp').2.2.1 fun c hc _ => by
    rw [List.mem_singleton.mp hc]
    exact hkeep
  exact ⟨hperm, hkeep, p, hp, he ▸ hp'⟩

def Tie.estimates (p : Profile ℚ) : List (Option ℚ) := p.entries.map fun e => (e.values.get? 2).map (·.estimate)

theorem short_first_differs : Tie.listed.Reordered Tie.shortFirst ∧
    ∃ p p', compute Tie.listed [Tie.reads] = .ok p ∧ compute Tie.shortFirst [Tie.reads] = .ok p' ∧ p ≠ p' := by
  have hlisted : (compute Tie.listed [Tie.reads]).toOption.map Tie.estimates = some [some (7 / 4)] := by cbv
  have hshort : (compute Tie.shortFirst [Tie.reads]).toOption.map Tie.estimates = some [some (3 / 2)] := by cbv
  obtain ⟨p, hp, he⟩ := ok_of_toOption_map hlisted
  obtain ⟨p', hp', he'⟩ := ok_of_toOption_map hshort
  refine ⟨⟨rfl, by decide⟩, p, p', hp, hp', fun hsame => ?_⟩
  rw [hsame, he'] at he
  norm_num at he

end Profile

end GpuProfile
