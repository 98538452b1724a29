import GpuProfile.Proofs.CommandNodes

namespace GpuProfile

variable {α : Type}

def Busy.times (b : Busy) : ℕ × ℕ := (b.gpu, b.wall)

def Leaf.reading (metric : MetricId) (leaf : Leaf α) : Option (Perf α) × Option (Perf α) :=
  (leaf.value? metric, leaf.value? Metric.gpuTime.id)

def Leaf.readingAt (command : CommandIndex) (metric : MetricId) (leaf : Leaf α) :
    Option (Option (Perf α) × Option (Perf α)) :=
  if command.IsAbove leaf.command then some (leaf.reading metric) else none

namespace Leaves

theorem readings_under (leaves : Leaves α) (command : CommandIndex) (metric : MetricId) :
    ((leaves.under command).map (·.2)).map (·.reading metric) =
      (leaves.toList.map fun p => (p.1, p.2.readingAt command metric)).filterMap (·.2) := by
  rw [under, List.map_map, ← List.filterMap_eq_map, List.filterMap_filter, List.filterMap_map]
  apply List.filterMap_congr
  intro p _
  by_cases ha : command.IsAbove p.2.command <;> simp [Leaf.readingAt, ha]

theorem nodes_eq_foldl (leaves : Leaves α) : leaves.nodes =
    (leaves.toList.map fun p => (p.1, p.2.command)).foldl
      (fun nodes (group, command) => command.prefixes.foldl
        (fun nodes command => nodes.alter command fun found => found.getD [] ++ [group]) nodes)
      .empty := by
  rw [List.foldl_map]
  rfl

section

variable [Quantity α]

theorem setBusy_congr {b b' : Busy} (h : b.times = b'.times) (leaves : Leaves α) (group : GroupId) :
    leaves.setBusy group b = leaves.setBusy group b' := by
  obtain ⟨hgpu, hwall⟩ := Prod.mk.inj h
  rw [setBusy, setBusy, hgpu, hwall]

theorem setTimes_congr {p p' : Prepared} {ids : List GroupId}
    (h : ∀ id ∈ ids, (Busy.ofSlices (p.ofGroup id)).map Busy.times = (Busy.ofSlices (p'.ofGroup id)).map Busy.times)
    (leaves : Leaves α) : leaves.setTimes p ids = leaves.setTimes p' ids := by
  induction ids generalizing leaves with
  | nil => rfl
  | cons id rest ih =>
    rw [List.forall_mem_cons] at h
    obtain ⟨hid, hrest⟩ := h
    rw [setTimes, setTimes]
    cases hb : Busy.ofSlices (p.ofGroup id) <;> cases hb' : Busy.ofSlices (p'.ofGroup id) <;> rw [hb, hb'] at hid
    case error.error => rw [Except.error.inj hid]
    case error.ok => cases hid
    case ok.error => cases hid
    case ok.ok b b' =>
      simp only [setBusy_congr (Except.ok.inj hid)]
      exact ih hrest _

theorem setCounters_congr {p p' : Prepared} {cs cs' : List (Counter α)}
    (h : List.Forall₂ (fun c c' => c.operator = c'.operator ∧
      (c.operator.isSupported → ∀ id, p.perf? c id = p'.perf? c' id)) cs cs') (place : ℕ) (leaves : Leaves α) :
    leaves.setCounters p place cs = leaves.setCounters p' place cs' := by
  induction h generalizing place leaves with
  | nil => rfl
  | @cons c c' rest rest' hc hrest ih =>
    obtain ⟨ho, hperf⟩ := hc
    rw [setCounters, setCounters, ih, ← ho]
    split
    · next hs =>
      have hset : ∀ (q : Prepared) (d : Counter α), leaves.setCounter q (Metric.ofCounter place d) d =
          leaves.keys.foldl (fun leaves g => leaves.set g (2 + Int32.ofNat place) (q.perf? d g)) leaves :=
        fun _ _ => rfl
      rw [hset, hset, funext (hperf hs)]
    · rfl

theorem sumOf_eq_readings (metric : MetricId) (members : List (Leaf α)) :
    sumOf metric members = ((members.map (·.reading metric)).filterMap (·.1)).foldl Perf.add (.exact 0) := by
  rw [List.filterMap_map]
  rfl

def addWeighted (sums : Perf α × α) (reading : Option (Perf α) × Option (Perf α)) : Perf α × α :=
  match reading.1 with
  | none => sums
  | some value =>
    let busy := (reading.2.map (·.estimate)).getD 0
    (sums.1.add (value.scale busy), sums.2 + busy)

theorem weightedSum_eq_readings (metric : MetricId) (members : List (Leaf α)) :
    weightedSum metric members = (members.map (·.reading metric)).foldl addWeighted (.exact 0, 0) := by
  rw [List.foldl_map]
  rfl

theorem mergeMetric_congr {metric metric' : Metric} (ho : metric.operator = metric'.operator)
    {members members' : List (Leaf α)}
    (h : members.map (·.reading metric.id) = members'.map (·.reading metric'.id)) :
    mergeMetric metric members = mergeMetric metric' members' := by
  rw [mergeMetric, mergeMetric, ho, sumOf_eq_readings, sumOf_eq_readings, weightedSum_eq_readings,
    weightedSum_eq_readings, h]

theorem mergeValues_congr (metrics : List Metric) {members members' : List (Leaf α)}
    (h : ∀ metric : Metric, members.map (·.reading metric.id) = members'.map (·.reading metric.id)) :
    mergeValues metrics members = mergeValues metrics members' := by
  have hmerge : ∀ metric, mergeMetric metric members = mergeMetric metric members' :=
    fun metric => mergeMetric_congr rfl (h metric)
  simp only [mergeValues, hmerge]

theorem get?_mergeValues_of_mem {metrics : List Metric} (hn : (metrics.map (·.id)).Nodup) {metric : Metric}
    (hm : metric ∈ metrics) (members : List (Leaf α)) : (mergeValues metrics members).get? metric.id =
      if metric.operator.isSupported then some ((mergeMetric metric members).getD .unknown) else none := by
  split
  · next hs => exact (get?_mergeValues hn members).mpr ⟨metric, hm, hs, rfl, rfl⟩
  · next hs =>
    rw [Option.eq_none_iff_forall_ne_some]
    intro value hvalue
    obtain ⟨metric', hm', hs', hid, -⟩ := (get?_mergeValues hn members).mp hvalue
    rw [List.inj_on_of_nodup_map hn hm' hm hid] at hs'
    exact hs hs'

end

theorem readingAt_congr {leaves leaves' : Leaves α} {id : GroupId} {command : CommandIndex} {metric metric' : MetricId}
    (hcommand : leaves.command? id = leaves'.command? id)
    (h : ∀ c, leaves.command? id = some c → command.IsAbove c →
      leaves.value? id metric = leaves'.value? id metric' ∧
      leaves.value? id Metric.gpuTime.id = leaves'.value? id Metric.gpuTime.id) :
    (leaves.get? id).map (·.readingAt command metric) = (leaves'.get? id).map (·.readingAt command metric') := by
  unfold command? at hcommand h
  unfold value? at h
  cases hleaf : leaves.get? id with
  | none =>
    rw [hleaf, Option.map_none, eq_comm, Option.map_eq_none_iff] at hcommand
    rw [hcommand, Option.map_none, Option.map_none]
  | some leaf =>
    rw [hleaf, Option.map_some, eq_comm, Option.map_eq_some_iff] at hcommand
    obtain ⟨leaf', hleaf', hcommand⟩ := hcommand
    rw [hleaf, hleaf'] at h
    rw [hleaf', Option.map_some, Option.map_some, Leaf.readingAt, Leaf.readingAt, hcommand]
    by_cases ha : command.IsAbove leaf.command
    · obtain ⟨hvalue, hbusy⟩ := h _ rfl ha
      simp only [Option.bind_some] at hvalue hbusy
      rw [if_pos ha, if_pos ha, Leaf.reading, Leaf.reading, hvalue, hbusy]
    · rw [if_neg ha, if_neg ha]

section

variable {leaves leaves' : Leaves α} (hcommand : ∀ id, leaves.command? id = leaves'.command? id)

include hcommand

theorem nodes_congr : leaves.nodes = leaves'.nodes := by
  rw [nodes_eq_foldl, nodes_eq_foldl, SortedMap.map_toList_congr hcommand]

theorem readings_under_congr {command : CommandIndex} {metric metric' : MetricId}
    (h : ∀ id c, leaves.command? id = some c → command.IsAbove c →
      leaves.value? id metric = leaves'.value? id metric' ∧
      leaves.value? id Metric.gpuTime.id = leaves'.value? id Metric.gpuTime.id) :
    ((leaves.under command).map (·.2)).map (·.reading metric) =
      ((leaves'.under command).map (·.2)).map (·.reading metric') := by
  have hcongr : (leaves.toList.map fun p => (p.1, p.2.readingAt command metric)) =
      leaves'.toList.map fun p => (p.1, p.2.readingAt command metric') :=
    SortedMap.map_toList_congr fun id => readingAt_congr (hcommand id) (h id)
  rw [readings_under, readings_under, hcongr]

variable [Quantity α]

theorem merge_commands_congr (metrics metrics' : List Metric) :
    (leaves.merge metrics).map (·.command) = (leaves'.merge metrics').map (·.command) := by
  rw [merge, merge, List.map_map, List.map_map, nodes_congr hcommand]
  rfl

theorem values_congr {metrics : List Metric} {e e' : Entry α} (he : e ∈ leaves.merge metrics)
    (he' : e' ∈ leaves'.merge metrics) (hsame : e.command = e'.command)
    (h : ∀ id c, leaves.command? id = some c → e.command.IsAbove c →
      ∀ metric, leaves.value? id metric = leaves'.value? id metric) : e.values = e'.values := by
  rw [values_of_mem_merge he, values_of_mem_merge he', ← hsame]
  apply mergeValues_congr
  intro metric
  exact readings_under_congr hcommand fun id c hc habove => ⟨h id c hc habove _, h id c hc habove _⟩

theorem get?_values_congr {metrics metrics' : List Metric} (hn : (metrics.map (·.id)).Nodup)
    (hn' : (metrics'.map (·.id)).Nodup) {e e' : Entry α} (he : e ∈ leaves.merge metrics)
    (he' : e' ∈ leaves'.merge metrics') (hsame : e.command = e'.command) {metric metric' : Metric}
    (hm : metric ∈ metrics) (hm' : metric' ∈ metrics') (ho : metric.operator = metric'.operator)
    (h : metric.operator.isSupported → ∀ id c, leaves.command? id = some c → e.command.IsAbove c →
      leaves.value? id metric.id = leaves'.value? id metric'.id ∧
      leaves.value? id Metric.gpuTime.id = leaves'.value? id Metric.gpuTime.id) :
    e.values.get? metric.id = e'.values.get? metric'.id := by
  rw [values_of_mem_merge he, values_of_mem_merge he', get?_mergeValues_of_mem hn hm,
    get?_mergeValues_of_mem hn' hm', ← ho, ← hsame]
  split
  · next hs => rw [mergeMetric_congr ho (readings_under_congr hcommand (h hs))]
  · rfl

end

end Leaves

namespace Profile

def value? (p : Profile α) (command : CommandIndex) (metric : MetricId) : Option (Perf α) := do
  let e ← entry? p command
  e.values.get? metric

theorem value?_cases (p : Profile α) (command : CommandIndex) :
    (command ∉ p.entries.map (·.command) ∧ ∀ metric, p.value? command metric = none) ∨
      ∃ e ∈ p.entries, e.command = command ∧ ∀ metric, p.value? command metric = e.values.get? metric := by
  unfold value? entry?
  cases hfind : p.entries.find? (·.command == command) with
  | none =>
    rw [List.find?_eq_none] at hfind
    refine .inl ⟨fun hmem => ?_, fun metric => rfl⟩
    obtain ⟨e, he, hc⟩ := List.mem_map.mp hmem
    exact hfind e he (by simpa using hc)
  | some e =>
    have hc := List.find?_some hfind
    exact .inr ⟨e, List.mem_of_find?_eq_some hfind, by simpa using hc, fun metric => rfl⟩

theorem value?_congr_at {p p' : Profile α} (hcommands : p.entries.map (·.command) = p'.entries.map (·.command))
    {command : CommandIndex} {metric metric' : MetricId}
    (h : ∀ e ∈ p.entries, ∀ e' ∈ p'.entries, e.command = command → e'.command = command →
      e.values.get? metric = e'.values.get? metric') : p.value? command metric = p'.value? command metric' := by
  rcases p.value?_cases command with ⟨hno, hnone⟩ | ⟨e, he, hc, hvalue⟩ <;>
    rcases p'.value?_cases command with ⟨hno', hnone'⟩ | ⟨e', he', hc', hvalue'⟩
  · rw [hnone, hnone']
  · exact absurd (hcommands ▸ hc' ▸ List.mem_map_of_mem he') hno
  · exact absurd (hcommands ▸ hc ▸ List.mem_map_of_mem he) hno'
  · rw [hvalue, hvalue', h e he e' he' hc hc']

theorem value?_congr {p p' : Profile α} (hcommands : p.entries.map (·.command) = p'.entries.map (·.command))
    {command : CommandIndex} {metric metric' : MetricId}
    (h : ∀ e ∈ p.entries, ∀ e' ∈ p'.entries, e.command = e'.command → e.values.get? metric = e'.values.get? metric') :
    p.value? command metric = p'.value? command metric' :=
  value?_congr_at hcommands fun e he e' he' hc hc' => h e he e' he' (hc.trans hc'.symm)

theorem leavesOf_congr [Quantity α] {t t' : Timeline} {cs cs' : List (Counter α)} (hgroups : t.groups = t'.groups)
    (hbusy : ∀ id ∈ (Leaves.ofGroups t.groups : Leaves α).keys,
      (Busy.ofSlices (t.prepare.ofGroup id)).map Busy.times = (Busy.ofSlices (t'.prepare.ofGroup id)).map Busy.times)
    (hcounters : List.Forall₂ (fun c c' => c.operator = c'.operator ∧
      (c.operator.isSupported → ∀ id, t.prepare.perf? c id = t'.prepare.perf? c' id)) cs cs') :
    leavesOf t cs = leavesOf t' cs' := by
  rw [leavesOf, leavesOf, ← hgroups]
  simp only [Leaves.setTimes_congr hbusy, Leaves.setCounters_congr hcounters]

section

variable [Quantity α] {t t' : Timeline} {cs cs' : List (Counter α)} {leaves leaves' : Leaves α}
  (hl : leavesOf t cs = .ok leaves) (hl' : leavesOf t' cs' = .ok leaves') (hn : (t.groups.map (·.id)).Nodup)
  (hgroups : t.groups = t'.groups)

include hl hl' hn hgroups

theorem command?_congr (id : GroupId) : leaves.command? id = leaves'.command? id := by
  have hn' : (t'.groups.map (·.id)).Nodup := hgroups ▸ hn
  ext command
  rw [leavesOf_command? hl hn, leavesOf_command? hl' hn', hgroups]

variable (hsize : cs.length + 2 ≤ UInt32.size) (hsize' : cs'.length + 2 ≤ UInt32.size)

include hsize hsize'

theorem times_congr {g : Group} (hg : g ∈ t.groups)
    (hbusy : Busy.ofSlices (t.prepare.ofGroup g.id) = Busy.ofSlices (t'.prepare.ofGroup g.id)) :
    leaves.value? g.id Metric.gpuTime.id = leaves'.value? g.id Metric.gpuTime.id ∧
      leaves.value? g.id Metric.wallTime.id = leaves'.value? g.id Metric.wallTime.id := by
  have hn' : (t'.groups.map (·.id)).Nodup := hgroups ▸ hn
  obtain ⟨b, hb, hgpu, hwall⟩ := leavesOf_times hl hn hsize hg
  obtain ⟨b', hb', hgpu', hwall'⟩ := leavesOf_times hl' hn' hsize' (hgroups ▸ hg)
  rw [hbusy, hb'] at hb
  rw [hgpu, hgpu', hwall, hwall', Except.ok.inj hb]
  exact ⟨rfl, rfl⟩

theorem entry_congr (htimes : ∀ g ∈ t.groups,
      leaves.value? g.id Metric.gpuTime.id = leaves'.value? g.id Metric.gpuTime.id)
    {e e' : Entry α} (he : e ∈ leaves.merge (metricsOf cs)) (he' : e' ∈ leaves'.merge (metricsOf cs'))
    (hsame : e.command = e'.command) {metric metric' : Metric} (hm : metric ∈ metricsOf cs) (hm' : metric' ∈ metricsOf cs')
    (ho : metric.operator = metric'.operator)
    (hvalue : metric.operator.isSupported → ∀ g ∈ t.groups, e.command.IsAbove g.command →
      leaves.value? g.id metric.id = leaves'.value? g.id metric'.id) :
    e.values.get? metric.id = e'.values.get? metric'.id := by
  refine Leaves.get?_values_congr (command?_congr hl hl' hn hgroups) (nodup_metricsOf_ids hsize)
    (nodup_metricsOf_ids hsize') he he' hsame hm hm' ho ?_
  intro hs id command hcommand habove
  have hg : ⟨id, command⟩ ∈ t.groups := (leavesOf_command? hl hn).mp hcommand
  exact ⟨hvalue hs _ hg habove, htimes _ hg⟩

end

end Profile

end GpuProfile
