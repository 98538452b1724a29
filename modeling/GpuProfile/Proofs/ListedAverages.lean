import GpuProfile.Proofs.RoundedWeights
import GpuProfile.Summary

namespace GpuProfile

namespace Profile

theorem metric?_eq_some {α : Type} {p : Profile α} (hn : (p.metrics.map (·.id)).Nodup) {metric : Metric}
    (hm : metric ∈ p.metrics) : p.metric? metric.id = some metric := by
  unfold metric?
  cases hfind : p.metrics.find? (·.id == metric.id) with
  | none => simpa using List.find?_eq_none.mp hfind metric hm
  | some found =>
    have hid : found.id = metric.id := by simpa using List.find?_some hfind
    rw [List.inj_on_of_nodup_map hn (List.mem_of_find?_eq_some hfind) hm hid]

end Profile

namespace Summary

variable {α : Type} [AsDouble α] {p : Profile α} {metric : Metric}

theorem mem_rows {r : Row α} : r ∈ rows p metric ↔ ∃ e ∈ p.entries, e.command = r.command ∧
    e.values.get? metric.id = some r.perf ∧ (metric.isAdditive ∨ r.amounts.isUnknown = false) := by
  simp only [rows, List.mem_mergeSort, List.mem_filter, List.mem_filterMap, Option.map_eq_some_iff, Bool.or_eq_true,
    Bool.not_eq_true']
  constructor
  · rintro ⟨⟨e, he, perf, hvalue, rfl⟩, hlisted⟩
    exact ⟨e, he, rfl, hvalue, hlisted⟩
  · rintro ⟨e, he, hcommand, hvalue, hlisted⟩
    exact ⟨⟨e, he, r.perf, hvalue, by rw [hcommand]⟩, hlisted⟩

theorem length_rows_le : (rows p metric).length ≤ p.entries.length := by
  rw [rows, List.length_mergeSort]
  exact (List.length_filter_le _ _).trans (List.length_filterMap_le _ _)

def fullTable (metric : Metric) (rows : List (Row α)) : List String :=
  ["  " ++ Text.upperCase metric.name ++ " (" ++ metric.unit ++ ")", rule "┏" "┳" "┓", heading, rule "┣" "╋" "┫"] ++
    rows.map (Row.text none) ++ [rule "┗" "┻" "┛"]

theorem table_eq_fullTable (ho : metric.operator = .timeWeightedAverage) {rows : List (Row α)} {limit : ℕ}
    (h : rows.length ≤ limit) : table metric rows limit = fullTable metric rows := by
  have hshare : metric.isAdditive = false := by
    rw [Metric.isAdditive, ho]
    rfl
  simp only [table, hshare, if_neg (not_lt.mpr h), List.take_of_length_le h, List.append_nil]
  rfl

end Summary

namespace Profile

variable {t : Timeline} {cs : List (Counter Float)} {p : Profile Float} {k : ℕ} {c : Counter Float}

/-- The mark of a missing average stands for one that is missing, or for one that comes to the mark itself;
a summary with room for all commands lists those with a computed average, apart from the latter. -/
theorem averages_listed (h : compute t cs = .ok p) (hsize : cs.length + 2 ≤ UInt32.size) (hk : cs[k]? = some c)
    (ho : c.operator = .timeWeightedAverage) : ∃ leaves, leavesOf t cs = .ok leaves ∧
      (∀ e ∈ p.entries, ∃ v, e.values.get? (Metric.ofCounter k c).id = some v ∧ (v.isUnknown ↔
        (∀ g ∈ t.groups, e.command.IsAbove g.command → leaves.value? g.id (Metric.ofCounter k c).id = none) ∨
        ∃ average, Leaves.mergeMetric (Metric.ofCounter k c) ((leaves.under e.command).map (·.2)) = some average ∧
          average.isUnknown)) ∧
      (∀ r, r ∈ Summary.rows p (Metric.ofCounter k c) ↔ ∃ e ∈ p.entries, e.command = r.command ∧
        e.values.get? (Metric.ofCounter k c).id = some r.perf ∧ r.perf.isUnknown = false ∧
        ∃ g ∈ t.groups, e.command.IsAbove g.command ∧ (leaves.value? g.id (Metric.ofCounter k c).id).isSome) ∧
      ∀ limit, p.entries.length ≤ limit → Summary.ofProfile p (Metric.ofCounter k c).id limit =
        "\n".intercalate (Summary.fullTable (Metric.ofCounter k c) (Summary.rows p (Metric.ofCounter k c))) := by
  obtain ⟨hcheck, leaves, hleaves, rfl⟩ := compute_eq_ok_iff.mp h
  have hn := (checkTraces_eq_ok_iff.mp hcheck).1
  have hinc : c.Increasing := increasing_of_checkTraces hcheck (List.mem_of_getElem? hk)
  have hs : c.operator.isSupported := by rw [ho]; rfl
  have hnone := average_eq_none_iff hleaves hn hsize hk hinc ho
  have hvalue : ∀ e ∈ leaves.merge (metricsOf cs), e.values.get? (Metric.ofCounter k c).id = some
      ((Leaves.mergeMetric (Metric.ofCounter k c) ((leaves.under e.command).map (·.2))).getD .unknown) :=
    fun e he => counter_entry hsize hk hs he
  refine ⟨leaves, hleaves, fun e he => ⟨_, hvalue e he, ?_⟩, fun r => ?_, fun limit hlimit => ?_⟩
  · rw [← hnone e.command]
    cases Leaves.mergeMetric (Metric.ofCounter k c) ((leaves.under e.command).map (·.2)) with
    | none => exact iff_of_true rfl (.inl rfl)
    | some average => simp
  · rw [Summary.mem_rows]
    constructor
    · rintro ⟨e, he, hcommand, hget, hlisted⟩
      have hmarked : r.perf.isUnknown = false := hlisted.resolve_left fun hadditive => by
        rw [Metric.isAdditive, show (Metric.ofCounter k c).operator = _ from ho] at hadditive
        cases hadditive
      refine ⟨e, he, hcommand, hget, hmarked, ?_⟩
      by_contra hno
      push Not at hno
      have haverage := (hnone e.command).mpr fun g hg ha => by simpa using hno g hg ha
      rw [hvalue e he, haverage] at hget
      rw [← Option.some.inj hget] at hmarked
      cases hmarked
    · rintro ⟨e, he, hcommand, hget, hmarked, -⟩
      exact ⟨e, he, hcommand, hget, .inr hmarked⟩
  · rw [Summary.ofProfile, metric?_eq_some (nodup_metricsOf_ids hsize) (ofCounter_mem_metricsOf hk)]
    dsimp only
    rw [Summary.table_eq_fullTable ho (Summary.length_rows_le.trans hlimit)]

def Frost.timeline : Timeline where
  slices := [⟨1, 0, 5, 12⟩]
  groups := [⟨1, ⟨[0, 1]⟩⟩, ⟨2, ⟨[1]⟩⟩]

def Frost.temperature : Counter Float := ⟨"Temperature", "C", #[10, 20], #[0, -1], .timeWeightedAverage⟩

def Frost.clock : Counter Float := ⟨"Clock", "MHz", #[0, 10, 20], #[0, 4, 8], .timeWeightedAverage⟩

theorem Frost.computes : ∃ p, compute timeline [temperature, clock] = .ok p ∧
    (∃ e ∈ p.entries, e.command = ⟨[0, 1]⟩ ∧ (∃ v, e.values.get? 2 = some v ∧ v.isUnknown) ∧
      ∃ v, e.values.get? 3 = some v ∧ v.isUnknown = false) ∧
    Summary.rows p (Metric.ofCounter 0 temperature) = [] := by
  have hresult : (compute timeline [temperature, clock]).toOption.map (fun p =>
      (p.entries.map (fun e => (e.command, [2, 3].map fun id => (e.values.get? id).map (·.isUnknown))),
        (Summary.rows p (Metric.ofCounter 0 temperature)).length)) =
      some ([(⟨[0]⟩, [some true, some false]), (⟨[0, 1]⟩, [some true, some false]), (⟨[1]⟩, [some true, some true])],
        0) := by
    decide +kernel
  obtain ⟨p, hp, he⟩ := ok_of_toOption_map hresult
  obtain ⟨hentries, hrows⟩ := Prod.mk.inj he
  refine ⟨p, hp, ?_, List.length_eq_zero_iff.mp hrows⟩
  have hmem : ((⟨[0, 1]⟩ : CommandIndex), [some true, some false]) ∈
      p.entries.map (fun e => (e.command, [2, 3].map fun id => (e.values.get? id).map (·.isUnknown))) := by
    rw [hentries]
    decide
  obtain ⟨e, hentry, hvalue⟩ := List.mem_map.mp hmem
  simp only [List.map_cons, List.map_nil, Prod.mk.injEq, List.cons.injEq, Option.map_eq_some_iff, and_true] at hvalue
  exact ⟨e, hentry, hvalue⟩

theorem Frost.leaves : ∃ leaves, leavesOf timeline [temperature, clock] = .ok leaves ∧
    ((leaves.value? 1 2).isSome ∧ (leaves.value? 1 3).isSome) := by
  have hresult : (leavesOf timeline [temperature, clock]).toOption.map (fun leaves =>
      decide ((leaves.value? 1 2).isSome ∧ (leaves.value? 1 3).isSome)) = some true := by
    decide +kernel
  obtain ⟨leaves, hleaves, hsome⟩ := ok_of_toOption_map hresult
  exact ⟨leaves, hleaves, of_decide_eq_true hsome⟩

theorem frost_clock_listed : ∃ p, compute Frost.timeline [Frost.temperature, Frost.clock] = .ok p ∧
    (∃ r ∈ Summary.rows p (Metric.ofCounter 1 Frost.clock), r.command = ⟨[0, 1]⟩) ∧
    ∀ limit, p.entries.length ≤ limit → Summary.ofProfile p (Metric.ofCounter 1 Frost.clock).id limit =
      "\n".intercalate (Summary.fullTable (Metric.ofCounter 1 Frost.clock)
        (Summary.rows p (Metric.ofCounter 1 Frost.clock))) := by
  obtain ⟨p, hp, ⟨e, he, hcommand, -, v, hv, hmarked⟩, -⟩ := Frost.computes
  obtain ⟨leaves, hleaves, -, hsome⟩ := Frost.leaves
  obtain ⟨leaves', hleaves', -, hrows, htext⟩ := averages_listed hp (by decide) (k := 1) (c := Frost.clock) rfl rfl
  cases hleaves.symm.trans hleaves'
  have hlisted : ⟨e.command, v⟩ ∈ Summary.rows p (Metric.ofCounter 1 Frost.clock) :=
    (hrows _).mpr ⟨e, he, rfl, hv, hmarked, ⟨1, ⟨[0, 1]⟩⟩, by decide, by rw [hcommand]; decide, hsome⟩
  exact ⟨p, hp, ⟨_, hlisted, hcommand⟩, htext⟩

theorem frost_temperature_unlisted : ∃ p, compute Frost.timeline [Frost.temperature, Frost.clock] = .ok p ∧
    ∃ leaves, leavesOf Frost.timeline [Frost.temperature, Frost.clock] = .ok leaves ∧
      ∃ e ∈ p.entries, (∃ v, e.values.get? (Metric.ofCounter 0 Frost.temperature).id = some v ∧ v.isUnknown) ∧
        (∃ g ∈ Frost.timeline.groups, e.command.IsAbove g.command ∧
          (leaves.value? g.id (Metric.ofCounter 0 Frost.temperature).id).isSome) ∧
        ∀ r ∈ Summary.rows p (Metric.ofCounter 0 Frost.temperature), r.command ≠ e.command := by
  obtain ⟨p, hp, ⟨e, he, hcommand, hmarked, -⟩, hrows⟩ := Frost.computes
  obtain ⟨leaves, hleaves, hsome, -⟩ := Frost.leaves
  refine ⟨p, hp, leaves, hleaves, e, he, hmarked, ⟨⟨1, ⟨[0, 1]⟩⟩, by decide, ?_, hsome⟩, ?_⟩
  · rw [hcommand]
    decide
  · rw [hrows]
    simp

end Profile

end GpuProfile
