import GpuProfile.Proofs.EntryValues
import GpuProfile.Proofs.ExactMerge

namespace GpuProfile

variable {α : Type}

def Counter.withValues (c : Counter α) (values : Array α) : Counter α := { c with values := values }

theorem forall₂_set {β : Type} {R : β → β → Prop} (hrefl : ∀ x, R x x) {xs : List β} {k : ℕ} {x y : β}
    (hk : xs[k]? = some x) (hxy : R x y) : List.Forall₂ R xs (xs.set k y) := by
  induction xs generalizing k with
  | nil => simp at hk
  | cons z rest ih =>
    cases k with
    | zero =>
      cases hk
      exact .cons hxy (List.forall₂_same.mpr fun w _ => hrefl w)
    | succ k => exact .cons (hrefl z) (ih hk)

theorem counterMetrics_congr {cs cs' : List (Counter α)}
    (h : List.Forall₂ (fun c c' => ∀ place, Metric.ofCounter place c = Metric.ofCounter place c') cs cs') (place : ℕ) :
    counterMetrics place cs = counterMetrics place cs' := by
  induction h generalizing place with
  | nil => rfl
  | cons hc _ ih => rw [counterMetrics, counterMetrics, hc, ih]

section

variable [Quantity α] {c : Counter α} {values : Array α}

theorem Counter.value_withValues {i : ℕ} (h : c.values[i]? = values[i]?) :
    (c.withValues values).value i = c.value i := by
  rw [value, value, Array.getD_eq_getD_getElem?, Array.getD_eq_getD_getElem?, h]
  rfl

namespace SampleWeights

variable {w : SampleWeights α} (h : ∀ q ∈ w.toList, c.values[q.1]? = values[q.1]?)

include h

theorem sum_withValues : w.sum (c.withValues values) = w.sum c := by
  have hterms : (w.toList.map fun q => (c.withValues values).value q.1 * q.2) =
      w.toList.map fun q => c.value q.1 * q.2 := by
    apply List.map_congr_left
    intro q hq
    rw [Counter.value_withValues (h q hq)]
  rw [sum, sum, hterms]

theorem mean_withValues : w.mean (c.withValues values) = w.mean c := by
  apply List.foldl_ext
  rintro m ⟨i, weight⟩ hq
  simp only [Counter.value_withValues (h _ hq)]
  rfl

theorem aggregate?_withValues (op : Operator) : w.aggregate? (c.withValues values) op = w.aggregate? c op := by
  cases op with
  | summation => rw [aggregate?, sum_withValues h, aggregate?]
  | timeWeightedAverage => rw [aggregate?, mean_withValues h, aggregate?]
  | unsupported => rfl

end SampleWeights

theorem Prepared.perf?_withValues (h : c.Increasing) (p : Prepared) (id : GroupId)
    (hsame : ∀ i ∈ c.samples, (∃ s ∈ p.ofGroup id, s.Touches (c.interval i)) → c.values[i]? = values[i]?) :
    p.perf? (c.withValues values) id = p.perf? c id := by
  obtain ⟨hestimate, hmin, hmax⟩ := touched_of_weights h p id
  have hagree : ∀ w : SampleWeights α,
      (∀ q ∈ w.toList, q.1 ∈ c.samples ∧ ∃ s ∈ p.ofGroup id, s.Touches (c.interval q.1)) →
        w.aggregate? (c.withValues values) c.operator = w.aggregate? c c.operator := fun w hw =>
    SampleWeights.aggregate?_withValues (fun q hq => hsame q.1 (hw q hq).1 (hw q hq).2) _
  have hweights : (p.weights c id).perf? (c.withValues values) c.operator =
      (p.weights c id).perf? c c.operator := by
    rw [Weights.perf?, Weights.perf?, hagree _ hestimate, hagree _ hmin, hagree _ hmax]
  exact hweights

end

namespace Profile

variable {t : Timeline} {cs : List (Counter α)} {k : ℕ} {c : Counter α} {values : Array α}

theorem metricsOf_withValues (hk : cs[k]? = some c) :
    metricsOf (cs.set k (c.withValues values)) = metricsOf cs := by
  have hsame := forall₂_set (R := fun c c' : Counter α => ∀ place, Metric.ofCounter place c = Metric.ofCounter place c')
    (fun _ _ => rfl) hk (show ∀ place, _ = Metric.ofCounter place (c.withValues values) from fun _ => rfl)
  rw [metricsOf, metricsOf, counterMetrics_congr hsame]

variable [Quantity α]

-- The counters come in after the times, and only the times can fail.
theorem leavesOf_cases (t : Timeline) (cs cs' : List (Counter α)) :
    (∃ d, leavesOf t cs = .error d ∧ leavesOf t cs' = .error d) ∨
      ∃ timed : Leaves α, leavesOf t cs = .ok (timed.setCounters t.prepare 0 cs) ∧
        leavesOf t cs' = .ok (timed.setCounters t.prepare 0 cs') := by
  unfold leavesOf
  dsimp only
  split
  · next timed d _ => exact .inl ⟨d, rfl, rfl⟩
  · next timed _ => exact .inr ⟨timed, rfl, rfl⟩

theorem value?_leaf_withValues (hk : cs[k]? = some c) (hc : c.Increasing) {timed : Leaves α} {id : GroupId}
    (hg : (timed.command? id).isSome)
    (hsame : ∀ i ∈ c.samples, t.Reaches id (c.interval i) → c.values[i]? = values[i]?) (metric : MetricId) :
    (timed.setCounters t.prepare 0 cs).value? id metric =
      (timed.setCounters t.prepare 0 (cs.set k (c.withValues values))).value? id metric := by
  have hperf : t.prepare.perf? (c.withValues values) id = t.prepare.perf? c id :=
    t.prepare.perf?_withValues hc id fun i hi htouch => hsame i hi (Timeline.reaches_iff.mp htouch)
  refine Leaves.value?_setCounters_congr ?_ 0 hg hg (fun _ => rfl) metric
  exact forall₂_set (fun _ => ⟨rfl, rfl⟩) hk ⟨rfl, hperf.symm⟩

theorem values_withValues (hk : cs[k]? = some c) (hc : c.Increasing) (hn : (t.groups.map (·.id)).Nodup)
    {timed : Leaves α} (hl : leavesOf t cs = .ok (timed.setCounters t.prepare 0 cs))
    (hl' : leavesOf t (cs.set k (c.withValues values)) =
      .ok (timed.setCounters t.prepare 0 (cs.set k (c.withValues values)))) {metrics : List Metric} {e e' : Entry α}
    (he : e ∈ (timed.setCounters t.prepare 0 cs).merge metrics)
    (he' : e' ∈ (timed.setCounters t.prepare 0 (cs.set k (c.withValues values))).merge metrics)
    (hcommand : e.command = e'.command)
    (hsame : ∀ i ∈ c.samples, (∃ g ∈ t.groups, e.command.IsAbove g.command ∧ t.Reaches g.id (c.interval i)) →
      c.values[i]? = values[i]?) : e.values = e'.values := by
  refine Leaves.values_congr (command?_congr hl hl' hn rfl) he he' hcommand ?_
  intro id command hid habove
  have hg : ⟨id, command⟩ ∈ t.groups := (leavesOf_command? hl hn).mp hid
  have hsome := Option.isSome_of_eq_some hid
  rw [Leaves.command?_setCounters] at hsome
  exact value?_leaf_withValues hk hc hsome fun i hi hreach => hsame i hi ⟨_, hg, habove, hreach⟩

theorem values_read_touched_samples (hk : cs[k]? = some c) (hcheck : checkTraces t cs = .ok ())
    (hcheck' : checkTraces t (cs.set k (c.withValues values)) = .ok ()) :
    ((∃ d, compute t cs = .error d ∧ compute t (cs.set k (c.withValues values)) = .error d) ∨
      ∃ p p', compute t cs = .ok p ∧ compute t (cs.set k (c.withValues values)) = .ok p' ∧
        p.metrics = p'.metrics ∧ p.entries.map (·.command) = p'.entries.map (·.command) ∧
        ∀ command, (∀ i ∈ c.samples, (∃ g ∈ t.groups, command.IsAbove g.command ∧ t.Reaches g.id (c.interval i)) →
            c.values[i]? = values[i]?) → ∀ metric, p.value? command metric = p'.value? command metric) ∧
    ((∀ i ∈ c.samples, c.values[i]? = values[i]?) →
      compute t cs = compute t (cs.set k (c.withValues values))) := by
  have hn := (checkTraces_eq_ok_iff.mp hcheck).1
  have hc := increasing_of_checkTraces hcheck (List.mem_of_getElem? hk)
  rw [compute_of_checked hcheck, compute_of_checked hcheck', metricsOf_withValues hk]
  constructor
  · obtain ⟨d, herr, herr'⟩ | ⟨timed, hl, hl'⟩ := leavesOf_cases t cs (cs.set k (c.withValues values))
    · rw [herr, herr']
      exact .inl ⟨d, rfl, rfl⟩
    · have hcommands := Leaves.merge_commands_congr (command?_congr hl hl' hn rfl) (metricsOf cs) (metricsOf cs)
      rw [hl, hl']
      refine .inr ⟨_, _, rfl, rfl, rfl, hcommands, fun command hsame metric => ?_⟩
      apply value?_congr_at hcommands
      intro e he e' he' hec hec'
      rw [values_withValues hk hc hn hl hl' he he' (hec.trans hec'.symm) (by rwa [hec])]
  · intro hsame
    have hperf : ∀ id, t.prepare.perf? (c.withValues values) id = t.prepare.perf? c id :=
      fun id => t.prepare.perf?_withValues hc id fun i hi _ => hsame i hi
    have hleaves : leavesOf t cs = leavesOf t (cs.set k (c.withValues values)) := by
      refine leavesOf_congr rfl (fun _ _ => rfl) (forall₂_set (fun _ => ⟨rfl, fun _ _ => rfl⟩) hk ?_)
      exact ⟨rfl, fun _ id => (hperf id).symm⟩
    rw [hleaves]

theorem sketch_reads_touched_samples :
    [Sketch.occupancy, Sketch.reads][1]? = some Sketch.reads ∧
    checkTraces Sketch.timeline [Sketch.occupancy, Sketch.reads] = .ok () ∧
    checkTraces Sketch.timeline [Sketch.occupancy, Sketch.reads.withValues #[100, 40, 30, 50, 1, 8, 2]] = .ok () ∧
    (∃ p p', compute Sketch.timeline [Sketch.occupancy, Sketch.reads] = .ok p ∧
      compute Sketch.timeline [Sketch.occupancy, Sketch.reads.withValues #[100, 40, 30, 50, 1, 8, 2]] = .ok p' ∧
      p.value? ⟨[0, 1]⟩ 3 = p'.value? ⟨[0, 1]⟩ 3 ∧
      (p.value? ⟨[0]⟩ 3).map (·.max) = some 34 ∧ (p'.value? ⟨[0]⟩ 3).map (·.max) = some 142) ∧
    checkTraces Sketch.timeline [Sketch.occupancy, Sketch.reads.withValues #[100, 4, 3, 5, 1, 8, 2]] = .ok () ∧
    compute Sketch.timeline [Sketch.occupancy, Sketch.reads] =
      compute Sketch.timeline [Sketch.occupancy, Sketch.reads.withValues #[100, 4, 3, 5, 1, 8, 2]] := by
  have hplace : [Sketch.occupancy, Sketch.reads][1]? = some Sketch.reads := rfl
  have hcheck : checkTraces Sketch.timeline [Sketch.occupancy, Sketch.reads] = .ok () := by decide
  have hcheck' : checkTraces Sketch.timeline
      [Sketch.occupancy, Sketch.reads.withValues #[100, 40, 30, 50, 1, 8, 2]] = .ok () := by decide
  have hcheckFirst : checkTraces Sketch.timeline
      [Sketch.occupancy, Sketch.reads.withValues #[100, 4, 3, 5, 1, 8, 2]] = .ok () := by decide
  obtain ⟨houtcome, -⟩ := values_read_touched_samples hplace hcheck hcheck'
  obtain ⟨-, hfirst⟩ := values_read_touched_samples hplace hcheck hcheckFirst
  refine ⟨hplace, hcheck, hcheck', ?_, hcheckFirst, hfirst (by decide)⟩
  obtain ⟨d, herr, -⟩ | ⟨p, p', hp, hp', -, -, hvalues⟩ := houtcome
  · obtain ⟨p, hp, -⟩ := Sketch.computes
    rw [hp] at herr
    cases herr
  · have hmax : ((compute Sketch.timeline [Sketch.occupancy, Sketch.reads]).toOption.map
        fun p => (p.value? ⟨[0]⟩ 3).map (·.max)) = some (some 34) := by cbv
    have hmax' : ((compute Sketch.timeline
        [Sketch.occupancy, Sketch.reads.withValues #[100, 40, 30, 50, 1, 8, 2]]).toOption.map
          fun p => (p.value? ⟨[0]⟩ 3).map (·.max)) = some (some 142) := by cbv
    rw [List.set_cons_succ, List.set_cons_zero] at hp'
    rw [hp] at hmax
    rw [hp'] at hmax'
    exact ⟨p, p', hp, hp', hvalues ⟨[0, 1]⟩ (by decide) 3, Option.some.inj hmax, Option.some.inj hmax'⟩

end Profile

end GpuProfile
