import GpuProfile.Proofs.CommandNodes
import GpuProfile.Proofs.ValidTraces
import GpuProfile.Quantity.Exact

namespace GpuProfile

theorem counterMetrics_append {α : Type} (place : ℕ) (cs cs' : List (Counter α)) :
    counterMetrics place (cs ++ cs') = counterMetrics place cs ++ counterMetrics (place + cs.length) cs' := by
  induction cs generalizing place with
  | nil => rfl
  | cons c rest ih => simp only [List.cons_append, counterMetrics, ih, List.length_cons, Nat.add_assoc, Nat.add_comm 1]

namespace Leaves

variable {α : Type} [Quantity α] (p : Prepared)

theorem setCounters_append (place : ℕ) (cs cs' : List (Counter α)) (leaves : Leaves α) :
    leaves.setCounters p place (cs ++ cs') = (leaves.setCounters p place cs).setCounters p (place + cs.length) cs' := by
  induction cs generalizing place leaves with
  | nil => rfl
  | cons c rest ih => simp only [List.cons_append, setCounters, ih, List.length_cons, Nat.add_assoc, Nat.add_comm 1]

theorem setCounters_of_unsupported (place : ℕ) {cs : List (Counter α)} (h : ∀ c ∈ cs, ¬c.operator.isSupported)
    (leaves : Leaves α) : leaves.setCounters p place cs = leaves := by
  induction cs generalizing place with
  | nil => rfl
  | cons c rest ih =>
    rw [List.forall_mem_cons] at h
    rw [setCounters, if_neg h.1, ih _ h.2]

theorem mergeValues_of_supported {metrics metrics' : List Metric}
    (h : metrics.filter (·.operator.isSupported) = metrics'.filter (·.operator.isSupported)) (members : List (Leaf α)) :
    mergeValues metrics members = mergeValues metrics' members := by
  rw [mergeValues_eq_ofList, mergeValues_eq_ofList, h]

theorem merge_of_supported {metrics metrics' : List Metric}
    (h : metrics.filter (·.operator.isSupported) = metrics'.filter (·.operator.isSupported)) (leaves : Leaves α) :
    leaves.merge metrics = leaves.merge metrics' := by
  simp only [merge, mergeValues_of_supported h]

end Leaves

def Counter.idle : Counter ℚ := ⟨"Idle", "", #[], #[], .unsupported⟩

/-- Some counters, idle ones up to a place, and one more counter there. -/
def apart (cs : List (Counter ℚ)) (place : ℕ) (last : Counter ℚ) : List (Counter ℚ) :=
  cs ++ List.replicate (place - cs.length) Counter.idle ++ [last]

namespace Profile

variable {t : Timeline} {cs : List (Counter ℚ)} {place : ℕ} {last : Counter ℚ}

theorem metricsOf_append {α : Type} (cs cs' : List (Counter α)) :
    metricsOf (cs ++ cs') = metricsOf cs ++ counterMetrics cs.length cs' := by
  rw [metricsOf, metricsOf, counterMetrics_append, Nat.zero_add, List.cons_append, List.cons_append]

theorem filter_metricsOf_apart (hplace : cs.length ≤ place) :
    (metricsOf (apart cs place last)).filter (·.operator.isSupported) =
      (metricsOf cs ++ [Metric.ofCounter place last]).filter (·.operator.isSupported) := by
  have hidle : (counterMetrics cs.length (List.replicate (place - cs.length) Counter.idle)).filter
      (·.operator.isSupported) = [] := by
    rw [List.filter_eq_nil_iff]
    intro m hm
    obtain ⟨k, c, hk, rfl⟩ := mem_counterMetrics.mp hm
    rw [List.eq_of_mem_replicate (List.mem_of_getElem? hk)]
    exact Bool.false_ne_true
  have hlast : counterMetrics (cs ++ List.replicate (place - cs.length) Counter.idle).length [last] =
      [Metric.ofCounter place last] := by
    rw [List.length_append, List.length_replicate, Nat.add_sub_cancel' hplace]
    rfl
  rw [apart, metricsOf_append, metricsOf_append, hlast, List.filter_append, List.filter_append, hidle, List.append_nil,
    List.filter_append]

theorem leavesOf_apart (hplace : cs.length ≤ place) (hs : last.operator.isSupported) :
    leavesOf t (apart cs place last) =
      (leavesOf t cs).map fun leaves => leaves.setCounter t.prepare (.ofCounter place last) last := by
  have hset : ∀ leaves : Leaves ℚ, leaves.setCounters t.prepare 0 (apart cs place last) =
      (leaves.setCounters t.prepare 0 cs).setCounter t.prepare (.ofCounter place last) last := by
    intro leaves
    have hidle : ∀ c ∈ List.replicate (place - cs.length) Counter.idle, ¬c.operator.isSupported := by
      intro c hc
      rw [List.eq_of_mem_replicate hc]
      exact Bool.false_ne_true
    rw [apart, Leaves.setCounters_append, Leaves.setCounters_append, Leaves.setCounters_of_unsupported _ _ hidle,
      List.length_append, List.length_replicate, Nat.zero_add, Nat.add_sub_cancel' hplace, Leaves.setCounters,
      if_pos hs, Leaves.setCounters]
  unfold leavesOf
  dsimp only
  split
  · rfl
  · rw [hset]
    rfl

theorem checkTraces_apart (hcheck : checkTraces t (cs ++ [last]) = .ok ()) :
    checkTraces t (apart cs place last) = .ok () := by
  rw [checkTraces_eq_ok_iff] at hcheck ⊢
  refine ⟨hcheck.1, hcheck.2.1, fun c hc => ?_⟩
  rw [apart, List.append_assoc, List.mem_append, List.mem_append] at hc
  rcases hc with hc | hc | hc
  · exact hcheck.2.2 c (List.mem_append_left _ hc)
  · rw [List.eq_of_mem_replicate hc]
    rfl
  · exact hcheck.2.2 c (List.mem_append_right _ hc)

theorem compute_apart {leaves : Leaves ℚ} (hcheck : checkTraces t (cs ++ [last]) = .ok ())
    (hleaves : leavesOf t cs = .ok leaves) (hplace : cs.length ≤ place) (hs : last.operator.isSupported) :
    compute t (apart cs place last) = .ok ⟨metricsOf (apart cs place last),
      (leaves.setCounter t.prepare (.ofCounter place last) last).merge (metricsOf cs ++ [.ofCounter place last])⟩ := by
  rw [compute_of_checked (checkTraces_apart hcheck), leavesOf_apart hplace hs, hleaves]
  exact congrArg (fun entries => Except.ok (Profile.mk _ entries))
    (Leaves.merge_of_supported (filter_metricsOf_apart hplace) _)

theorem result_apart (t : Timeline) (cs : List (Counter ℚ)) (place : ℕ) (last : Counter ℚ) {ρ : Type}
    (f : Leaves ℚ → List (Entry ℚ) → ρ) {y : ρ}
    (hcheck : checkTraces t (cs ++ [last]) = .ok ()) (hplace : cs.length ≤ place) (hs : last.operator.isSupported)
    (h : (leavesOf t cs).toOption.map (fun leaves =>
      f (leaves.setCounter t.prepare (.ofCounter place last) last)
        ((leaves.setCounter t.prepare (.ofCounter place last) last).merge (metricsOf cs ++ [.ofCounter place last]))) =
      some y) :
    ∃ p leaves, compute t (apart cs place last) = .ok p ∧ leavesOf t (apart cs place last) = .ok leaves ∧
      f leaves p.entries = y := by
  obtain ⟨leaves, hleaves, hresult⟩ := ok_of_toOption_map h
  refine ⟨_, leaves.setCounter t.prepare (.ofCounter place last) last, compute_apart hcheck hleaves hplace hs, ?_,
    hresult⟩
  rw [leavesOf_apart hplace hs, hleaves]
  rfl

theorem root_apart (t : Timeline) (cs : List (Counter ℚ)) (place : ℕ) (last : Counter ℚ) {ρ : Type}
    (f : Leaves ℚ → List (Entry ℚ) → Entry ℚ → ρ) {y : ρ}
    (hcheck : checkTraces t (cs ++ [last]) = .ok ()) (hplace : cs.length ≤ place) (hs : last.operator.isSupported)
    (h : (leavesOf t cs).toOption.map (fun leaves =>
      let filled := leaves.setCounter t.prepare (.ofCounter place last) last
      let entries := filled.merge (metricsOf cs ++ [.ofCounter place last])
      entries.head?.map (f filled entries)) = some (some y)) :
    ∃ p leaves, compute t (apart cs place last) = .ok p ∧ leavesOf t (apart cs place last) = .ok leaves ∧
      ∃ e ∈ p.entries, f leaves p.entries e = y := by
  obtain ⟨p, leaves, hp, hleaves, hroot⟩ := result_apart t cs place last
    (fun leaves entries => entries.head?.map (f leaves entries)) hcheck hplace hs h
  obtain ⟨e, he, hvalue⟩ := Option.map_eq_some_iff.mp hroot
  exact ⟨p, leaves, hp, hleaves, e, List.mem_of_head? he, hvalue⟩

def Relief.timeline : Timeline := ⟨[⟨1, 0, 2, 4⟩, ⟨2, 0, 12, 16⟩], [⟨1, ⟨[0, 0]⟩⟩, ⟨2, ⟨[0, 1]⟩⟩]⟩

def Relief.clock : Counter ℚ := ⟨"Clock", "MHz", #[0, 8, 16, 24, 32], #[0, 4, 0, 0, 8], .timeWeightedAverage⟩

def Relief.drift : Counter ℚ := ⟨"Drift", "", #[0, 8, 16, 24, 32], #[0, 4, 0, -1, 0], .summation⟩

def Relief.evenDrift : Counter ℚ := { drift with values := #[0, 2, 0, -1, 0] }

def Relief.counters (drift : Counter ℚ) : List (Counter ℚ) := apart [clock] (UInt32.size - 2) drift

end Profile

end GpuProfile
