import GpuProfile.Proofs.ComputableTraces
import GpuProfile.Proofs.EntryValues
import GpuProfile.Proofs.ExactMerge

namespace GpuProfile

namespace Profile

variable {α : Type} [Quantity α] {t : Timeline} {cs cs' : List (Counter α)}

theorem Computable.counters (h : Computable t cs) : ∀ c ∈ cs, c.check = .ok () :=
  (checkTraces_eq_ok_iff.mp (computable_iff.mp h).1).2.2

theorem Computable.with_counters (h : Computable t cs) (hcheck : ∀ c ∈ cs', c.check = .ok ()) : Computable t cs' := by
  obtain ⟨htraces, hbusy⟩ := computable_iff.mp h
  obtain ⟨hn, hends, -⟩ := checkTraces_eq_ok_iff.mp htraces
  exact computable_iff.mpr ⟨checkTraces_eq_ok_iff.mpr ⟨hn, hends, hcheck⟩, hbusy⟩

section

variable {p p' : Profile α} (h : compute t cs = .ok p) (h' : compute t cs' = .ok p')

include h h'

theorem commands_separate : p.entries.map (·.command) = p'.entries.map (·.command) := by
  have hn := (compute_isOk_iff.mp ⟨p, h⟩).distinct
  obtain ⟨-, leaves, hl, rfl⟩ := compute_eq_ok_iff.mp h
  obtain ⟨-, leaves', hl', rfl⟩ := compute_eq_ok_iff.mp h'
  exact Leaves.merge_commands_congr (command?_congr hl hl' hn rfl) _ _

variable (hsize : cs.length + 2 ≤ UInt32.size) (hsize' : cs'.length + 2 ≤ UInt32.size)

include hsize hsize'

-- A metric is merged from its own values and the GPU times, so it is enough that the leaves agree on these.
theorem value?_separate {metric metric' : Metric} (hm : metric ∈ metricsOf cs) (hm' : metric' ∈ metricsOf cs')
    (ho : metric.operator = metric'.operator)
    (hvalue : ∀ leaves leaves', leavesOf t cs = .ok leaves → leavesOf t cs' = .ok leaves' →
      metric.operator.isSupported → ∀ g ∈ t.groups, leaves.value? g.id metric.id = leaves'.value? g.id metric'.id)
    (command : CommandIndex) : p.value? command metric.id = p'.value? command metric'.id := by
  have hn := (compute_isOk_iff.mp ⟨p, h⟩).distinct
  have hcommands := commands_separate h h'
  obtain ⟨-, leaves, hl, rfl⟩ := compute_eq_ok_iff.mp h
  obtain ⟨-, leaves', hl', rfl⟩ := compute_eq_ok_iff.mp h'
  have htimes : ∀ g ∈ t.groups, leaves.value? g.id Metric.gpuTime.id = leaves'.value? g.id Metric.gpuTime.id :=
    fun g hg => (times_congr hl hl' hn rfl hsize hsize' hg rfl).1
  refine value?_congr hcommands fun e he e' he' hsame => ?_
  exact entry_congr hl hl' hn rfl hsize hsize' htimes he he' hsame hm hm' ho fun hs g hg _ =>
    hvalue leaves leaves' hl hl' hs g hg

theorem times_separate (command : CommandIndex) :
    p.value? command Metric.gpuTime.id = p'.value? command Metric.gpuTime.id ∧
      p.value? command Metric.wallTime.id = p'.value? command Metric.wallTime.id := by
  have hn := (compute_isOk_iff.mp ⟨p, h⟩).distinct
  constructor
  · apply value?_separate h h' hsize hsize' (mem_metricsOf.mpr (.inl rfl)) (mem_metricsOf.mpr (.inl rfl)) rfl
    exact fun _ _ hl hl' _ g hg => (times_congr hl hl' hn rfl hsize hsize' hg rfl).1
  · apply value?_separate h h' hsize hsize' (mem_metricsOf.mpr (.inr (.inl rfl)))
      (mem_metricsOf.mpr (.inr (.inl rfl))) rfl
    exact fun _ _ hl hl' _ g hg => (times_congr hl hl' hn rfl hsize hsize' hg rfl).2

theorem counter_separate {k j : ℕ} {c : Counter α} (hk : cs[k]? = some c) (hj : cs'[j]? = some c)
    (command : CommandIndex) :
    p.value? command (Metric.ofCounter k c).id = p'.value? command (Metric.ofCounter j c).id := by
  have hn := (compute_isOk_iff.mp ⟨p, h⟩).distinct
  apply value?_separate h h' hsize hsize' (ofCounter_mem_metricsOf hk) (ofCounter_mem_metricsOf hj) rfl
  intro leaves leaves' hl hl' hs g hg
  rw [leavesOf_counter hl hn hsize hg hk hs, leavesOf_counter hl' hn hsize' hg hj hs]

end

theorem counters_separate {p : Profile α} (h : compute t cs = .ok p) (hsize : cs.length + 2 ≤ UInt32.size) :
    (∃ bare, compute t [] = .ok bare ∧ p.entries.map (·.command) = bare.entries.map (·.command) ∧
      ∀ command, p.value? command 0 = bare.value? command 0 ∧ p.value? command 1 = bare.value? command 1) ∧
    ∀ k c, cs[k]? = some c →
      (∃ alone, compute t [c] = .ok alone ∧ p.entries.map (·.command) = alone.entries.map (·.command) ∧
        ∀ command, p.value? command (2 + Int32.ofNat k) = alone.value? command 2) ∧
      ∀ cs' j, (∀ d ∈ cs', d.check = .ok ()) → cs'.length + 2 ≤ UInt32.size → cs'[j]? = some c →
        ∃ p', compute t cs' = .ok p' ∧ p.entries.map (·.command) = p'.entries.map (·.command) ∧
          ∀ command, p.value? command (2 + Int32.ofNat k) = p'.value? command (2 + Int32.ofNat j) := by
  have hc : Computable t cs := compute_isOk_iff.mp ⟨p, h⟩
  have hnone : ([] : List (Counter α)).length + 2 ≤ UInt32.size := show 2 ≤ UInt32.size by decide
  have hone : ∀ c : Counter α, [c].length + 2 ≤ UInt32.size := fun _ => show 3 ≤ UInt32.size by decide
  constructor
  · obtain ⟨bare, hbare⟩ := compute_isOk_iff.mpr (hc.with_counters (List.forall_mem_nil _))
    exact ⟨bare, hbare, commands_separate h hbare, times_separate h hbare hsize hnone⟩
  · intro k c hk
    constructor
    · have hcheck : ∀ d ∈ [c], d.check = .ok () := by
        rw [List.forall_mem_singleton]
        exact hc.counters c (List.mem_of_getElem? hk)
      obtain ⟨alone, halone⟩ := compute_isOk_iff.mpr (hc.with_counters hcheck)
      exact ⟨alone, halone, commands_separate h halone, counter_separate h halone hsize (hone c) hk (j := 0) rfl⟩
    · intro cs' j hcheck hsize' hj
      obtain ⟨p', hp'⟩ := compute_isOk_iff.mpr (hc.with_counters hcheck)
      exact ⟨p', hp', commands_separate h hp', counter_separate h hp' hsize hsize' hk hj⟩

theorem sketch_separate : ∃ p alone, compute Sketch.timeline [Sketch.occupancy, Sketch.reads] = .ok p ∧
    compute Sketch.timeline [Sketch.reads] = .ok alone ∧ p.value? ⟨[0]⟩ 3 = alone.value? ⟨[0]⟩ 2 ∧
    ∃ p', compute Sketch.timeline [Sketch.reads, { Sketch.occupancy with operator := .unsupported }] = .ok p' ∧
      p.value? ⟨[0]⟩ 3 = p'.value? ⟨[0]⟩ 2 := by
  obtain ⟨p, hp, -⟩ := Sketch.computes
  obtain ⟨-, hcounters⟩ := counters_separate hp (by decide)
  obtain ⟨⟨alone, halone, -, hvalue⟩, hothers⟩ := hcounters 1 Sketch.reads rfl
  obtain ⟨p', hp', -, hvalue'⟩ := hothers [Sketch.reads, { Sketch.occupancy with operator := .unsupported }] 0
    (by decide) (by decide) rfl
  exact ⟨p, alone, hp, halone, hvalue ⟨[0]⟩, p', hp', hvalue' ⟨[0]⟩⟩

end Profile

end GpuProfile
