import GpuProfile.Proofs.MetricIds
import GpuProfile.Proofs.SortedMapLaws
import GpuProfile.Profile.Compute

namespace GpuProfile

variable {α : Type}

namespace Leaves

def command? (leaves : Leaves α) (group : GroupId) : Option CommandIndex :=
  (leaves.get? group).map (·.command)

def value? (leaves : Leaves α) (group : GroupId) (metric : MetricId) : Option (Perf α) :=
  (leaves.get? group).bind (·.value? metric)

theorem isSome_get?_iff (leaves : Leaves α) (group : GroupId) :
    (leaves.get? group).isSome ↔ (leaves.command? group).isSome := by
  rw [command?, Option.isSome_map]

theorem command?_ofGroups {groups : List Group} (hn : (groups.map (·.id)).Nodup)
    {id : GroupId} {command : CommandIndex} :
    (ofGroups groups : Leaves α).command? id = some command ↔ ⟨id, command⟩ ∈ groups := by
  have hpairs : ((groups.map fun g => (g.id, (⟨g.command, .empty⟩ : Leaf α))).map (·.1)).Nodup := by
    rwa [List.map_map]
  rw [command?, Option.map_eq_some_iff]
  simp only [ofGroups, SortedMap.get?_ofList hpairs, List.mem_map, Prod.mk.injEq]
  constructor
  · rintro ⟨leaf, ⟨g, hg, rfl, rfl⟩, rfl⟩
    exact hg
  · intro hg
    exact ⟨⟨command, .empty⟩, ⟨_, hg, rfl, rfl⟩, rfl⟩

theorem value?_ofGroups {groups : List Group} (hn : (groups.map (·.id)).Nodup) (id : GroupId) (metric : MetricId) :
    (ofGroups groups : Leaves α).value? id metric = none := by
  have hpairs : ((groups.map fun g => (g.id, (⟨g.command, .empty⟩ : Leaf α))).map (·.1)).Nodup := by
    rwa [List.map_map]
  rw [value?, Option.bind_eq_none_iff]
  intro leaf hleaf
  rw [ofGroups, SortedMap.get?_ofList hpairs, List.mem_map] at hleaf
  obtain ⟨g, -, he⟩ := hleaf
  cases he
  rfl

theorem mem_keys_ofGroups {groups : List Group} (hn : (groups.map (·.id)).Nodup) {id : GroupId} :
    id ∈ (ofGroups groups : Leaves α).keys ↔ id ∈ groups.map (·.id) := by
  rw [SortedMap.mem_keys_iff, isSome_get?_iff, Option.isSome_iff_exists, List.mem_map]
  simp only [command?_ofGroups hn]
  constructor
  · rintro ⟨command, hg⟩
    exact ⟨_, hg, rfl⟩
  · rintro ⟨g, hg, rfl⟩
    exact ⟨g.command, hg⟩

theorem command?_set (leaves : Leaves α) (group other : GroupId) (metric : MetricId) (value : Option (Perf α)) :
    (leaves.set group metric value).command? other = leaves.command? other := by
  rw [command?, set, SortedMap.get?_modify]
  split
  · next h =>
    rw [h, command?, Option.map_map]
    rfl
  · rfl

theorem value?_set {leaves : Leaves α} {group : GroupId} (hg : (leaves.command? group).isSome)
    (other : GroupId) (metric metric' : MetricId) (value : Option (Perf α)) :
    (leaves.set group metric value).value? other metric' =
      if other = group ∧ metric' = metric then value else leaves.value? other metric' := by
  rw [← isSome_get?_iff] at hg
  obtain ⟨leaf, hleaf⟩ := Option.isSome_iff_exists.mp hg
  rw [value?, set, SortedMap.get?_modify]
  by_cases ho : other = group
  · by_cases hm : metric' = metric
    · simp [ho, hm, hleaf, Leaf.value?, SortedMap.get?_insert]
    · simp [ho, hm, hleaf, Leaf.value?, SortedMap.get?_insert, value?]
  · simp [ho, value?]

theorem command?_foldl_set (metric : MetricId) (f : GroupId → Option (Perf α)) (ids : List GroupId)
    (leaves : Leaves α) (other : GroupId) :
    (ids.foldl (fun leaves g => leaves.set g metric (f g)) leaves).command? other = leaves.command? other := by
  induction ids generalizing leaves with
  | nil => rfl
  | cons g rest ih => rw [List.foldl_cons, ih, command?_set]

theorem value?_foldl_set (metric : MetricId) (f : GroupId → Option (Perf α)) {ids : List GroupId}
    {leaves : Leaves α} (h : ∀ g ∈ ids, (leaves.command? g).isSome) (other : GroupId) (metric' : MetricId) :
    (ids.foldl (fun leaves g => leaves.set g metric (f g)) leaves).value? other metric' =
      if other ∈ ids ∧ metric' = metric then f other else leaves.value? other metric' := by
  induction ids generalizing leaves with
  | nil => simp
  | cons g rest ih =>
    rw [List.forall_mem_cons] at h
    rw [List.foldl_cons, ih (fun x hx => by rw [command?_set]; exact h.2 x hx), value?_set h.1]
    by_cases hr : other ∈ rest
    · by_cases hm : metric' = metric <;> simp [hr, hm]
    · by_cases hg : other = g
      · subst hg
        by_cases hm : metric' = metric <;> simp [hr, hm]
      · simp [hr, hg]

variable [Quantity α]

theorem command?_setBusy (leaves : Leaves α) (group other : GroupId) (b : Busy) :
    (leaves.setBusy group b).command? other = leaves.command? other := by
  rw [setBusy, command?_set, command?_set]

theorem value?_setBusy {leaves : Leaves α} {group : GroupId} (hg : (leaves.command? group).isSome) (b : Busy)
    (other : GroupId) (metric : MetricId) : (leaves.setBusy group b).value? other metric =
      if other = group ∧ metric = Metric.wallTime.id then some (.exact (Quantity.ofNat b.wall))
      else if other = group ∧ metric = Metric.gpuTime.id then some (.exact (Quantity.ofNat b.gpu))
      else leaves.value? other metric := by
  rw [setBusy, value?_set (by rwa [command?_set]), value?_set hg]

theorem command?_setTimes {p : Prepared} {ids : List GroupId} {leaves leaves' : Leaves α}
    (h : leaves.setTimes p ids = (leaves', none)) (other : GroupId) :
    leaves'.command? other = leaves.command? other := by
  induction ids generalizing leaves with
  | nil =>
    simp only [setTimes, Prod.mk.injEq, and_true] at h
    rw [h]
  | cons g rest ih =>
    rw [setTimes] at h
    split at h
    · simp at h
    · next b hb => rw [ih h, command?_setBusy]

theorem value?_setTimes {p : Prepared} {ids : List GroupId} {leaves leaves' : Leaves α}
    (h : leaves.setTimes p ids = (leaves', none)) (hids : ∀ g ∈ ids, (leaves.command? g).isSome) :
    (∀ g ∉ ids, ∀ metric, leaves'.value? g metric = leaves.value? g metric) ∧
      ∀ g ∈ ids, ∃ b, Busy.ofSlices (p.ofGroup g) = .ok b ∧ ∀ metric, leaves'.value? g metric =
        if metric = Metric.wallTime.id then some (.exact (Quantity.ofNat b.wall))
        else if metric = Metric.gpuTime.id then some (.exact (Quantity.ofNat b.gpu))
        else leaves.value? g metric := by
  induction ids generalizing leaves with
  | nil =>
    simp only [setTimes, Prod.mk.injEq, and_true] at h
    simp [h]
  | cons g rest ih =>
    rw [List.forall_mem_cons] at hids
    rw [setTimes] at h
    split at h
    · simp at h
    · next b hb =>
      obtain ⟨hout, hin⟩ := ih h (fun x hx => by rw [command?_setBusy]; exact hids.2 x hx)
      refine ⟨fun x hx metric => ?_, fun x hx => ?_⟩
      · rw [List.mem_cons, not_or] at hx
        rw [hout x hx.2, value?_setBusy hids.1]
        simp [hx.1]
      · by_cases he : x = g
        · subst he
          by_cases hr : x ∈ rest
          · obtain ⟨b', hb', hvalue⟩ := hin x hr
            rw [hb, Except.ok.injEq] at hb'
            subst hb'
            refine ⟨b, hb, fun metric => ?_⟩
            rw [hvalue, value?_setBusy hids.1]
            split
            · rfl
            · simp_all
          · exact ⟨b, hb, fun metric => by simp [hout x hr, value?_setBusy hids.1]⟩
        · obtain ⟨b', hb', hvalue⟩ := hin x ((List.mem_cons.mp hx).resolve_left he)
          exact ⟨b', hb', fun metric => by rw [hvalue, value?_setBusy hids.1]; simp [he]⟩

theorem value?_timed {p : Prepared} {groups : List Group} (hn : (groups.map (·.id)).Nodup) {timed : Leaves α}
    (ht : (ofGroups groups : Leaves α).setTimes p (ofGroups groups : Leaves α).keys = (timed, none)) {id : GroupId}
    (hid : id ∈ groups.map (·.id)) : (timed.command? id).isSome ∧ ∃ b, Busy.ofSlices (p.ofGroup id) = .ok b ∧
      ∀ metric, timed.value? id metric =
        if metric = Metric.wallTime.id then some (.exact (Quantity.ofNat b.wall))
        else if metric = Metric.gpuTime.id then some (.exact (Quantity.ofNat b.gpu)) else none := by
  have hkeys : ∀ x ∈ (ofGroups groups : Leaves α).keys, ((ofGroups groups : Leaves α).command? x).isSome := by
    intro x hx
    rwa [← isSome_get?_iff, ← SortedMap.mem_keys_iff]
  have hkey : id ∈ (ofGroups groups : Leaves α).keys := (mem_keys_ofGroups hn).mpr hid
  obtain ⟨b, hb, hvalue⟩ := (value?_setTimes ht hkeys).2 id hkey
  refine ⟨?_, b, hb, fun metric => ?_⟩
  · rw [command?_setTimes ht]
    exact hkeys id hkey
  · rw [hvalue, value?_ofGroups hn]

end Leaves

variable [Quantity α]

namespace Prepared

def weights (p : Prepared) (c : Counter α) (group : GroupId) : Weights α :=
  Weights.ofSlices (p.ofGroup group) c (c.concurrency p.slices)

def perf? (p : Prepared) (c : Counter α) (group : GroupId) : Option (Perf α) :=
  (p.weights c group).perf? c c.operator

end Prepared

namespace Leaves

theorem command?_setCounter (p : Prepared) (metric : Metric) (c : Counter α) (leaves : Leaves α) (other : GroupId) :
    (leaves.setCounter p metric c).command? other = leaves.command? other :=
  command?_foldl_set metric.id (p.perf? c) leaves.keys leaves other

theorem value?_setCounter (p : Prepared) (metric : Metric) (c : Counter α) {leaves : Leaves α} {group : GroupId}
    (hg : (leaves.command? group).isSome) (metric' : MetricId) :
    (leaves.setCounter p metric c).value? group metric' =
      if metric' = metric.id then p.perf? c group else leaves.value? group metric' := by
  have hkeys : ∀ g, g ∈ leaves.keys ↔ (leaves.command? g).isSome := fun g => by
    rw [← isSome_get?_iff, SortedMap.mem_keys_iff]
  have hset := value?_foldl_set metric.id (p.perf? c) (fun g hk => (hkeys g).mp hk) group metric'
  simp only [(hkeys group).mpr hg, true_and] at hset
  exact hset

theorem command?_setCounters (p : Prepared) (place : ℕ) (cs : List (Counter α)) (leaves : Leaves α)
    (other : GroupId) : (leaves.setCounters p place cs).command? other = leaves.command? other := by
  induction cs generalizing place leaves with
  | nil => rfl
  | cons c rest ih =>
    rw [setCounters, ih]
    split
    · exact command?_setCounter p _ c leaves other
    · rfl

theorem value?_setCounters_of_ne (p : Prepared) {place : ℕ} {cs : List (Counter α)} {leaves : Leaves α}
    {group : GroupId} (hg : (leaves.command? group).isSome) {metric : MetricId}
    (h : ∀ k c, cs[k]? = some c → metric ≠ (Metric.ofCounter (place + k) c).id) :
    (leaves.setCounters p place cs).value? group metric = leaves.value? group metric := by
  induction cs generalizing place leaves with
  | nil => rfl
  | cons c rest ih =>
    have hrest : ∀ k d, rest[k]? = some d → metric ≠ (Metric.ofCounter (place + 1 + k) d).id := by
      intro k d hk
      rw [Nat.add_assoc, Nat.add_comm 1]
      exact h (k + 1) d hk
    have hhead : metric ≠ (Metric.ofCounter place c).id := h 0 c rfl
    rw [setCounters]
    split
    · rw [ih (by rwa [command?_setCounter]) hrest, value?_setCounter p _ c hg, if_neg hhead]
    · exact ih hg hrest

theorem value?_setCounters (p : Prepared) {place : ℕ} {cs : List (Counter α)} {leaves : Leaves α} {group : GroupId}
    (hg : (leaves.command? group).isSome) (hsize : place + cs.length + 2 ≤ UInt32.size) {k : ℕ} {c : Counter α}
    (hk : cs[k]? = some c) (hs : c.operator.isSupported) :
    (leaves.setCounters p place cs).value? group (Metric.ofCounter (place + k) c).id = p.perf? c group := by
  induction cs generalizing place leaves k with
  | nil => simp at hk
  | cons d rest ih =>
    rw [List.length_cons] at hsize
    rw [setCounters]
    cases k with
    | zero =>
      simp only [List.getElem?_cons_zero, Option.some.injEq] at hk
      subst hk
      rw [if_pos hs, value?_setCounters_of_ne p (by rwa [command?_setCounter]), value?_setCounter p _ d hg]
      · simp
      · intro j e hj he
        have hlt : j < rest.length := (List.getElem?_eq_some_iff.mp hj).1
        have hij := Metric.ofCounter_id_inj (by omega) (by omega) he
        omega
    | succ k =>
      have he : place + (k + 1) = place + 1 + k := by omega
      rw [he]
      split
      · exact ih (by rwa [command?_setCounter]) (by omega) hk
      · exact ih hg (by omega) hk

theorem value?_setCounters_congr {p : Prepared} {id : GroupId} {cs cs' : List (Counter α)}
    (h : List.Forall₂ (fun c c' => c.operator = c'.operator ∧ p.perf? c id = p.perf? c' id) cs cs') (place : ℕ)
    {leaves leaves' : Leaves α} (hg : (leaves.command? id).isSome) (hg' : (leaves'.command? id).isSome)
    (hvalue : ∀ metric, leaves.value? id metric = leaves'.value? id metric) (metric : MetricId) :
    (leaves.setCounters p place cs).value? id metric = (leaves'.setCounters p place cs').value? id metric := by
  induction h generalizing place leaves leaves' with
  | nil => exact hvalue metric
  | @cons c c' rest rest' hc _ ih =>
    obtain ⟨ho, hperf⟩ := hc
    rw [setCounters, setCounters, ← ho]
    split
    · apply ih (place + 1)
      · rwa [command?_setCounter]
      · rwa [command?_setCounter]
      · intro metric
        rw [value?_setCounter p _ c hg, value?_setCounter p _ c' hg', hperf, hvalue]
        rfl
    · exact ih (place + 1) hg hg' hvalue

end Leaves

namespace Profile

variable {t : Timeline} {cs : List (Counter α)} {leaves : Leaves α}

theorem ok_of_toOption_map {ε τ ρ : Type} {x : Except ε τ} {f : τ → ρ} {y : ρ} (h : x.toOption.map f = some y) :
    ∃ v, x = .ok v ∧ f v = y := by
  cases x with
  | error e => cases h
  | ok v => exact ⟨v, rfl, Option.some.inj h⟩

theorem compute_eq_ok_iff {p : Profile α} : compute t cs = .ok p ↔ checkTraces t cs = .ok () ∧
    ∃ leaves, leavesOf t cs = .ok leaves ∧ p = ⟨metricsOf cs, leaves.merge (metricsOf cs)⟩ := by
  unfold compute
  cases hc : checkTraces t cs with
  | error d => simp [bind, Except.bind]
  | ok u =>
    cases hl : leavesOf t cs with
    | error d => simp [bind, Except.bind]
    | ok leaves => simp [bind, Except.bind, eq_comm]

theorem compute_of_checked (h : checkTraces t cs = .ok ()) : compute t cs =
    (leavesOf t cs).map fun leaves => ⟨metricsOf cs, leaves.merge (metricsOf cs)⟩ := by
  rw [compute, h]
  cases leavesOf t cs <;> rfl

theorem leavesOf_eq_ok_iff : leavesOf t cs = .ok leaves ↔ ∃ timed,
    (Leaves.ofGroups t.groups : Leaves α).setTimes t.prepare (Leaves.ofGroups t.groups : Leaves α).keys = (timed, none) ∧
      leaves = timed.setCounters t.prepare 0 cs := by
  unfold leavesOf
  dsimp only
  split
  · next timed d h => simp [h]
  · next timed h => simp [h, eq_comm]

theorem leavesOf_command? (h : leavesOf t cs = .ok leaves) (hn : (t.groups.map (·.id)).Nodup)
    {id : GroupId} {command : CommandIndex} :
    leaves.command? id = some command ↔ ⟨id, command⟩ ∈ t.groups := by
  obtain ⟨timed, ht, rfl⟩ := leavesOf_eq_ok_iff.mp h
  rw [Leaves.command?_setCounters, Leaves.command?_setTimes ht, Leaves.command?_ofGroups hn]

theorem leavesOf_isSome (h : leavesOf t cs = .ok leaves) (hn : (t.groups.map (·.id)).Nodup) {g : Group}
    (hg : g ∈ t.groups) : (leaves.command? g.id).isSome :=
  Option.isSome_of_eq_some ((leavesOf_command? h hn).mpr hg)

theorem leavesOf_times (h : leavesOf t cs = .ok leaves) (hn : (t.groups.map (·.id)).Nodup)
    (hsize : cs.length + 2 ≤ UInt32.size) {g : Group} (hg : g ∈ t.groups) :
    ∃ b, Busy.ofSlices (t.prepare.ofGroup g.id) = .ok b ∧
      leaves.value? g.id Metric.gpuTime.id = some (.exact (Quantity.ofNat b.gpu)) ∧
      leaves.value? g.id Metric.wallTime.id = some (.exact (Quantity.ofNat b.wall)) := by
  obtain ⟨timed, ht, rfl⟩ := leavesOf_eq_ok_iff.mp h
  obtain ⟨hleaf, b, hb, hvalue⟩ := Leaves.value?_timed hn ht (List.mem_map_of_mem hg)
  have hlt : ∀ k c, cs[k]? = some c → 0 + k + 2 < UInt32.size := fun k c hk => by
    have hk' := (List.getElem?_eq_some_iff.mp hk).1
    omega
  refine ⟨b, hb, ?_, ?_⟩
  · rw [Leaves.value?_setCounters_of_ne _ hleaf, hvalue, if_neg (by decide), if_pos rfl]
    exact fun k c hk => (Metric.ofCounter_id_ne_gpuTime (hlt k c hk) c).symm
  · rw [Leaves.value?_setCounters_of_ne _ hleaf, hvalue, if_pos rfl]
    exact fun k c hk => (Metric.ofCounter_id_ne_wallTime (hlt k c hk) c).symm

theorem leavesOf_counter (h : leavesOf t cs = .ok leaves) (hn : (t.groups.map (·.id)).Nodup)
    (hsize : cs.length + 2 ≤ UInt32.size) {g : Group} (hg : g ∈ t.groups) {k : ℕ} {c : Counter α}
    (hk : cs[k]? = some c) (hs : c.operator.isSupported) :
    leaves.value? g.id (Metric.ofCounter k c).id = t.prepare.perf? c g.id := by
  have hsome := leavesOf_isSome h hn hg
  obtain ⟨timed, ht, rfl⟩ := leavesOf_eq_ok_iff.mp h
  rw [Leaves.command?_setCounters] at hsome
  have hvalue : (timed.setCounters t.prepare 0 cs).value? g.id (Metric.ofCounter (0 + k) c).id = _ :=
    Leaves.value?_setCounters t.prepare hsome (by omega) hk hs
  rwa [Nat.zero_add] at hvalue

end Profile

end GpuProfile
