import GpuProfile.Proofs.AddedZeros
import GpuProfile.Proofs.ComputableTraces
import GpuProfile.Proofs.EntryOrder
import GpuProfile.Proofs.EntryValues

namespace GpuProfile

open Quantity

namespace Timeline

structure GainsIdle (t t' : Timeline) (g : Group) : Prop where
  slices : t'.slices = t.slices
  groups : t'.groups.Perm (g :: t.groups)
  fresh : g.id ∉ t.groups.map (·.id)
  idle : ∀ s ∈ t.slices, s.depth = 0 → s.group ≠ g.id

namespace GainsIdle

variable {t t' : Timeline} {g : Group} (h : t.GainsIdle t' g)

include h

theorem mem_groups {x : Group} : x ∈ t'.groups ↔ x = g ∨ x ∈ t.groups := by
  rw [h.groups.mem_iff, List.mem_cons]

theorem mem_ids {id : GroupId} : id ∈ t'.groups.map (·.id) ↔ id = g.id ∨ id ∈ t.groups.map (·.id) := by
  rw [(h.groups.map _).mem_iff, List.map_cons, List.mem_cons]

theorem nodup_ids (hn : (t.groups.map (·.id)).Nodup) : (t'.groups.map (·.id)).Nodup := by
  rw [(h.groups.map _).nodup_iff, List.map_cons, List.nodup_cons]
  exact ⟨h.fresh, hn⟩

theorem profiles_eq {s : Slice} (hs : s ∈ t.slices) : t'.profiles s = t.profiles s := by
  rw [profiles, profiles, declares, declares, h.groups.any_eq, List.any_cons]
  by_cases hd : s.depth = 0
  · have hne : (g.id == s.group) = false := beq_false_of_ne (h.idle s hs hd).symm
    rw [hne, Bool.false_or]
  · rw [beq_false_of_ne hd, Bool.false_and, Bool.false_and]

theorem prepare_eq : t'.prepare = t.prepare := by
  rw [prepare, prepare, h.slices, List.filter_congr fun s hs => h.profiles_eq hs]

theorem ownSlices_eq_nil : t.ownSlices g.id = [] := by
  rw [ownSlices, List.filter_eq_nil_iff]
  intro s hs
  rw [decide_eq_true_eq]
  rintro ⟨hdepth, hgroup⟩
  exact h.idle s hs hdepth hgroup

theorem ofGroup_eq_nil : t.prepare.ofGroup g.id = [] := by
  rw [← h.prepare_eq, ← List.perm_nil, ← h.ownSlices_eq_nil, ownSlices, ← h.slices]
  apply t'.prepare_ofGroup_perm
  exact h.mem_ids.mpr (.inl rfl)

end GainsIdle

end Timeline

theorem foldl_of_idle {σ β : Type} {f : σ → β → σ} (Inv : σ → Prop) (hstep : ∀ s x, Inv s → Inv (f s x)) {s : σ}
    (hs : Inv s) (front : List β) {extra : List β} (hextra : ∀ x ∈ extra, ∀ s, Inv s → f s x = s) (back : List β) :
    (front ++ extra ++ back).foldl f s = (front ++ back).foldl f s := by
  induction front generalizing s with
  | cons x front ih => exact ih (hstep s x hs)
  | nil =>
    induction extra with
    | nil => rfl
    | cons x extra ih =>
      rw [List.forall_mem_cons] at hextra
      obtain ⟨hx, hextra⟩ := hextra
      rw [List.nil_append, List.cons_append, List.foldl_cons, hx s hs]
      exact ih hextra

variable {α : Type}

def Perf.All (P : α → Prop) (p : Perf α) : Prop := P p.estimate ∧ P p.min ∧ P p.max

theorem Perf.all_exact {P : α → Prop} {x : α} (h : P x) : (exact x).All P := ⟨h, h, h⟩

variable [Quantity α]

theorem Quantity.lesser_self (x : α) : lesser x x = x := ite_self x

theorem Quantity.greater_self (x : α) : greater x x = x := ite_self x

namespace Leaves

def IdleReading (r : Option (Perf α) × Option (Perf α)) : Prop :=
  (∀ value, r.1 = some value → value.All IsZero) ∧ ∀ value, r.2 = some value → value.All IsZero

def IdleAt (leaves : Leaves α) (id : GroupId) : Prop :=
  ∀ metric value, leaves.value? id metric = some value → value.All IsZero

theorem IdleAt.reading {leaves : Leaves α} {id : GroupId} (h : leaves.IdleAt id) {leaf : Leaf α}
    (hleaf : leaves.get? id = some leaf) (metric : MetricId) : IdleReading (leaf.reading metric) := by
  have hvalue : ∀ metric, leaves.value? id metric = leaf.value? metric := by
    intro metric
    rw [value?, hleaf]
    rfl
  constructor
  · intro value hfound
    exact h metric value ((hvalue _).trans hfound)
  · intro value hfound
    exact h Metric.gpuTime.id value ((hvalue _).trans hfound)

theorem IdleAt.setCounters {p : Prepared} {id : GroupId}
    (hperf : ∀ (c : Counter α) value, p.perf? c id = some value → value.All IsZero) (place : ℕ) (cs : List (Counter α))
    {leaves : Leaves α} (hid : (leaves.command? id).isSome) (h : leaves.IdleAt id) :
    (leaves.setCounters p place cs).IdleAt id := by
  induction cs generalizing place leaves with
  | nil => exact h
  | cons c rest ih =>
    rw [Leaves.setCounters]
    split
    · apply ih
      · rwa [command?_setCounter]
      · intro metric value hvalue
        rw [value?_setCounter p _ c hid] at hvalue
        split at hvalue
        · exact hperf c value hvalue
        · exact h metric value hvalue
    · exact ih (place + 1) hid h

end Leaves

namespace Profile

open Leaves

variable {t t' : Timeline} {cs : List (Counter α)} {g : Group}

theorem computable_of_gainsIdle (h : t.GainsIdle t' g) (hc : Computable t cs) : Computable t' cs where
  distinct := h.nodup_ids hc.distinct
  ends := by
    rw [h.slices]
    exact hc.ends
  lengths := hc.lengths
  increasing := hc.increasing
  finite := hc.finite
  busy := by
    intro x hx
    rw [Timeline.ownSlices, h.slices, ← Timeline.ownSlices]
    rcases h.mem_groups.mp hx with rfl | hx
    · rw [h.ownSlices_eq_nil]
      decide
    · exact hc.busy x hx

section

variable {leaves leaves' : Leaves α} (h : t.GainsIdle t' g) (hn : (t.groups.map (·.id)).Nodup)
  (hl : leavesOf t cs = .ok leaves) (hl' : leavesOf t' cs = .ok leaves')

include h hn hl hl'

theorem command?_gainsIdle {id : GroupId} (hid : id ≠ g.id) : leaves.command? id = leaves'.command? id := by
  ext command
  rw [leavesOf_command? hl hn, leavesOf_command? hl' (h.nodup_ids hn), h.mem_groups]
  constructor
  · exact .inr
  · rintro (rfl | hmem)
    · exact absurd rfl hid
    · exact hmem

theorem value?_gainsIdle {id : GroupId} (hid : id ∈ t.groups.map (·.id)) (metric : MetricId) :
    leaves.value? id metric = leaves'.value? id metric := by
  obtain ⟨timed, ht, rfl⟩ := leavesOf_eq_ok_iff.mp hl
  obtain ⟨timed', ht', rfl⟩ := leavesOf_eq_ok_iff.mp hl'
  rw [h.prepare_eq] at ht' ⊢
  obtain ⟨hsome, b, hb, hvalue⟩ := value?_timed hn ht hid
  obtain ⟨hsome', b', hb', hvalue'⟩ := value?_timed (h.nodup_ids hn) ht' (h.mem_ids.mpr (.inr hid))
  have hbusy : b = b' := Except.ok.inj (hb.symm.trans hb')
  apply value?_setCounters_congr _ 0 hsome hsome'
  · intro metric
    rw [hvalue, hvalue', hbusy]
  · exact List.forall₂_same.mpr fun c _ => ⟨rfl, rfl⟩

end

end Profile

variable [LawfulZeros α]

namespace Perf

theorem settled_add {p : Perf α} (h : p.All Settled) (q : Perf α) : (p.add q).All Settled := by
  obtain ⟨hestimate, hmin, hmax⟩ := h
  exact ⟨LawfulZeros.settled_add hestimate _, LawfulZeros.settled_add hmin _, LawfulZeros.settled_add hmax _⟩

theorem add_of_isZero {p q : Perf α} (h : p.All Settled) (hq : q.All IsZero) : p.add q = p := by
  obtain ⟨hestimate, hmin, hmax⟩ := h
  obtain ⟨hestimate', hmin', hmax'⟩ := hq
  rw [add, hestimate.add_of_isZero hestimate', hmin.add_of_isZero hmin', hmax.add_of_isZero hmax']

theorem isZero_scale {x : α} {p : Perf α} (hx : IsZero x) (hp : p.All IsZero) : (p.scale x).All IsZero := by
  obtain ⟨hestimate, hmin, hmax⟩ := hp
  exact ⟨LawfulZeros.isZero_mul hx hestimate, LawfulZeros.isZero_mul hx hmin, LawfulZeros.isZero_mul hx hmax⟩

end Perf

theorem Prepared.perf?_isZero {p : Prepared} {id : GroupId} (h : p.ofGroup id = []) {c : Counter α} {value : Perf α}
    (hvalue : p.perf? c id = some value) : value.All IsZero := by
  rw [perf?, weights, h] at hvalue
  change (Weights.none : Weights α).perf? c c.operator = some value at hvalue
  cases ho : c.operator with
  | summation =>
    have hsum : (Weights.none : Weights α).perf? c .summation =
        some ⟨-0, lesser (lesser (-0) (-0)) (-0), greater (greater (-0) (-0)) (-0)⟩ := rfl
    rw [ho, hsum, lesser_self, lesser_self, greater_self, greater_self] at hvalue
    rw [← Option.some.inj hvalue]
    exact Perf.all_exact (.inr rfl)
  | timeWeightedAverage =>
    have hquotient : (SampleWeights.mean .empty c).quotient? = none := if_pos LawfulWeights.zero_beq_zero
    rw [ho] at hvalue
    change (SampleWeights.mean .empty c).quotient?.map _ = some value at hvalue
    rw [hquotient] at hvalue
    cases hvalue
  | unsupported =>
    rw [ho] at hvalue
    cases hvalue

namespace Leaves

theorem addWeighted_settled (sums : Perf α × α) (r : Option (Perf α) × Option (Perf α))
    (h : sums.1.All Settled ∧ Settled sums.2) : (addWeighted sums r).1.All Settled ∧ Settled (addWeighted sums r).2 := by
  obtain ⟨value, busy⟩ := r
  cases value with
  | none => exact h
  | some value =>
    obtain ⟨htotal, htime⟩ := h
    exact ⟨Perf.settled_add htotal _, LawfulZeros.settled_add htime _⟩

theorem addWeighted_of_idle {sums : Perf α × α} (h : sums.1.All Settled ∧ Settled sums.2)
    {r : Option (Perf α) × Option (Perf α)} (hr : IdleReading r) : addWeighted sums r = sums := by
  obtain ⟨value, busy⟩ := r
  obtain ⟨hvalue, hbusy⟩ := hr
  cases value with
  | none => rfl
  | some value =>
    obtain ⟨htotal, htime⟩ := h
    have hweight : IsZero ((busy.map (·.estimate)).getD 0) := by
      cases busy with
      | none => exact .inl rfl
      | some busy => exact (hbusy busy rfl).1
    have hvalue' := Perf.add_of_isZero htotal (Perf.isZero_scale hweight (hvalue value rfl))
    exact Prod.ext hvalue' (htime.add_of_isZero hweight)

theorem mergeMetric_of_idle {metric : Metric} {members members' : List (Leaf α)}
    {front extra back : List (Option (Perf α) × Option (Perf α))}
    (h : members.map (·.reading metric.id) = front ++ back)
    (h' : members'.map (·.reading metric.id) = front ++ extra ++ back) (hextra : ∀ r ∈ extra, IdleReading r) :
    mergeMetric metric members' = mergeMetric metric members := by
  have hsettled : (Perf.exact (0 : α)).All Settled := Perf.all_exact settled_zero
  have hsum : sumOf metric.id members' = sumOf metric.id members := by
    rw [sumOf_eq_readings, sumOf_eq_readings, h, h', List.filterMap_append, List.filterMap_append, List.filterMap_append]
    apply foldl_of_idle (Perf.All Settled) (fun total value ht => Perf.settled_add ht value) hsettled
    intro value hvalue total ht
    obtain ⟨r, hr, hfound⟩ := List.mem_filterMap.mp hvalue
    exact Perf.add_of_isZero ht ((hextra r hr).1 value hfound)
  have hweighted : weightedSum metric.id members' = weightedSum metric.id members := by
    rw [weightedSum_eq_readings, weightedSum_eq_readings, h, h']
    apply foldl_of_idle (fun sums => sums.1.All Settled ∧ Settled sums.2) addWeighted_settled ⟨hsettled, settled_zero⟩
    intro r hr sums hsums
    exact addWeighted_of_idle hsums (hextra r hr)
  rw [mergeMetric, mergeMetric, hsum, hweighted]

end Leaves

namespace Profile

open Leaves

variable {t t' : Timeline} {cs : List (Counter α)} {g : Group}

section

variable {leaves leaves' : Leaves α} (h : t.GainsIdle t' g) (hn : (t.groups.map (·.id)).Nodup)
  (hl : leavesOf t cs = .ok leaves) (hl' : leavesOf t' cs = .ok leaves')

include h hn hl hl'

omit hl in
theorem idleAt_gainsIdle : leaves'.IdleAt g.id := by
  obtain ⟨timed, ht, rfl⟩ := leavesOf_eq_ok_iff.mp hl'
  rw [h.prepare_eq] at ht ⊢
  obtain ⟨hsome, b, hb, hvalue⟩ := value?_timed (h.nodup_ids hn) ht (h.mem_ids.mpr (.inl rfl))
  rw [h.ofGroup_eq_nil] at hb
  apply IdleAt.setCounters (fun c value => Prepared.perf?_isZero h.ofGroup_eq_nil) 0 cs hsome
  intro metric value hfound
  have hzero : (Perf.exact (ofNat 0 : α)).All IsZero := Perf.all_exact (.inl LawfulWeights.ofNat_zero)
  rw [hvalue, ← Except.ok.inj hb] at hfound
  split at hfound
  · rwa [← Option.some.inj hfound]
  · split at hfound
    · rwa [← Option.some.inj hfound]
    · cases hfound

-- The group stands anywhere among the groups of a command, since they come in order of their identifiers.
theorem readings_gainsIdle (command : CommandIndex) (metric : MetricId) : ∃ front extra back,
    ((leaves.under command).map (·.2)).map (·.reading metric) = front ++ back ∧
    ((leaves'.under command).map (·.2)).map (·.reading metric) = front ++ extra ++ back ∧
    ∀ r ∈ extra, IdleReading r := by
  have hnone : leaves.get? g.id = none := by
    rw [← Option.not_isSome_iff_eq_none, isSome_get?_iff, Option.isSome_iff_exists]
    rintro ⟨c, hc⟩
    exact h.fresh (List.mem_map.mpr ⟨_, (leavesOf_command? hl hn).mp hc, rfl⟩)
  have hsome : (leaves'.get? g.id).isSome := by
    rw [isSome_get?_iff]
    exact leavesOf_isSome hl' (h.nodup_ids hn) (h.mem_groups.mpr (.inl rfl))
  obtain ⟨leaf, hleaf⟩ := Option.isSome_iff_exists.mp hsome
  have hreading : ∀ id, id ≠ g.id → (leaves.get? id).map (·.readingAt command metric) =
      (leaves'.get? id).map (·.readingAt command metric) := by
    intro id hid
    apply readingAt_congr (command?_gainsIdle h hn hl hl' hid)
    intro c hc _
    have hmem : id ∈ t.groups.map (·.id) := List.mem_map_of_mem ((leavesOf_command? hl hn).mp hc)
    exact ⟨value?_gainsIdle h hn hl hl' hmem _, value?_gainsIdle h hn hl hl' hmem _⟩
  obtain ⟨front, back, hsplit, hsplit'⟩ := SortedMap.exists_split_of_fresh hnone hleaf hreading
  refine ⟨front.filterMap (·.2), [leaf.readingAt command metric].filterMap id, back.filterMap (·.2), ?_, ?_, ?_⟩
  · rw [readings_under, hsplit, List.filterMap_append]
  · rw [readings_under, hsplit', List.filterMap_append, List.append_assoc, List.filterMap_cons]
    cases leaf.readingAt command metric <;> rfl
  · intro r hr
    obtain ⟨found, hfound, rfl⟩ := List.mem_filterMap.mp hr
    rw [List.mem_singleton] at hfound
    change some r = leaf.readingAt command metric at hfound
    rw [Leaf.readingAt] at hfound
    split at hfound
    · rw [Option.some.inj hfound]
      exact (idleAt_gainsIdle h hn hl').reading hleaf metric
    · cases hfound

theorem entry_gainsIdle {metrics : List Metric} {e e' : Entry α} (he : e ∈ leaves.merge metrics)
    (he' : e' ∈ leaves'.merge metrics) (hsame : e.command = e'.command) : e = e' := by
  have hmerge : ∀ metric, mergeMetric metric ((leaves'.under e.command).map (·.2)) =
      mergeMetric metric ((leaves.under e.command).map (·.2)) := by
    intro metric
    obtain ⟨front, extra, back, hreadings, hreadings', hextra⟩ := readings_gainsIdle h hn hl hl' e.command metric.id
    exact mergeMetric_of_idle hreadings hreadings' hextra
  have hvalues : e.values = e'.values := by
    rw [values_of_mem_merge he, values_of_mem_merge he', ← hsame]
    simp only [mergeValues, hmerge]
  cases e
  cases e'
  cases hsame
  cases hvalues
  rfl

end

/-- A group without work of its own adds the entries that its command and the ancestors of it lack, and changes
no bit of the others. -/
theorem compute_gainsIdle {p : Profile α} (hp : compute t cs = .ok p) (h : t.GainsIdle t' g) :
    ∃ p', compute t' cs = .ok p' ∧ p'.metrics = p.metrics ∧
      (p'.entries.filter fun e => e.command ∈ p.entries.map (·.command)) = p.entries ∧
      (p'.entries.map (·.command)).Nodup ∧
      ∀ command, command ∈ p'.entries.map (·.command) ↔
        command ∈ p.entries.map (·.command) ∨ command.IsAbove g.command := by
  have hcomputable : Computable t cs := compute_isOk_iff.mp ⟨p, hp⟩
  obtain ⟨p', hp'⟩ := compute_isOk_iff.mpr (computable_of_gainsIdle h hcomputable)
  have hn := hcomputable.distinct
  obtain ⟨-, leaves, hl, rfl⟩ := compute_eq_ok_iff.mp hp
  obtain ⟨-, leaves', hl', rfl⟩ := compute_eq_ok_iff.mp hp'
  have hcommands : ∀ command, command ∈ (leaves'.merge (metricsOf cs)).map (·.command) ↔
      command ∈ (leaves.merge (metricsOf cs)).map (·.command) ∨ command.IsAbove g.command := by
    intro command
    simp only [mem_commands hl hn, mem_commands hl' (h.nodup_ids hn), h.mem_groups, or_and_right, exists_or,
      exists_eq_left]
    exact or_comm
  refine ⟨_, hp', rfl, ?_, nodup_merge_commands leaves' _, hcommands⟩
  apply entries_eq_of_mem_iff
  · exact (leaves'.merge_commands_ascending _).sublist (List.filter_sublist.map _)
  · exact leaves.merge_commands_ascending _
  · intro e
    rw [List.mem_filter, decide_eq_true_eq]
    constructor
    · rintro ⟨he', hold⟩
      obtain ⟨e₀, he₀, hsame⟩ := List.mem_map.mp hold
      rwa [← entry_gainsIdle h hn hl hl' he₀ he' hsame]
    · intro he
      have hold : e.command ∈ (leaves.merge (metricsOf cs)).map (·.command) := List.mem_map_of_mem he
      obtain ⟨e', he', hsame⟩ := List.mem_map.mp ((hcommands e.command).mpr (.inl hold))
      rw [entry_gainsIdle h hn hl hl' he he' hsame.symm]
      exact ⟨he', hsame ▸ hold⟩

def Lull.timeline : Timeline where
  slices := [⟨1, 0, 0, 30⟩, ⟨5, 1, 3, 4⟩]
  groups := [⟨1, ⟨[0, 0]⟩⟩, ⟨9, ⟨[0, 1]⟩⟩]

def Lull.waiting : Group := ⟨5, ⟨[0, 1, 2]⟩⟩

def Lull.extended : Timeline where
  slices := Lull.timeline.slices
  groups := [⟨1, ⟨[0, 0]⟩⟩, Lull.waiting, ⟨9, ⟨[0, 1]⟩⟩]

def Lull.clock : Counter Float := ⟨"Clock", "MHz", #[0, 10, 20, 50], #[0, 4, 8, 3], .timeWeightedAverage⟩

def Lull.reads : Counter Float := ⟨"Reads", "", #[0, 10, 20, 50], #[0, 0.1, 7, 2], .summation⟩

theorem lull_keeps_entries : Lull.timeline.GainsIdle Lull.extended Lull.waiting ∧
    ∃ p p', compute Lull.timeline [Lull.clock, Lull.reads] = .ok p ∧
      compute Lull.extended [Lull.clock, Lull.reads] = .ok p' ∧ p'.metrics = p.metrics ∧
      p.entries.map (·.command) = [⟨[0]⟩, ⟨[0, 0]⟩, ⟨[0, 1]⟩] ∧
      (p'.entries.filter fun e => e.command ∈ p.entries.map (·.command)) = p.entries ∧
      ⟨[0, 1, 2]⟩ ∈ p'.entries.map (·.command) := by
  have hgains : Lull.timeline.GainsIdle Lull.extended Lull.waiting :=
    ⟨rfl, by decide, by decide, by decide⟩
  have hcommands : (compute Lull.timeline [Lull.clock, Lull.reads]).toOption.map (·.entries.map (·.command)) =
      some [⟨[0]⟩, ⟨[0, 0]⟩, ⟨[0, 1]⟩] := by decide +kernel
  obtain ⟨p, hp, hcommands⟩ := ok_of_toOption_map hcommands
  obtain ⟨p', hp', hmetrics, hkept, -, hadded⟩ := compute_gainsIdle hp hgains
  refine ⟨hgains, p, p', hp, hp', hmetrics, hcommands, hkept, (hadded _).mpr (.inr ?_)⟩
  decide

end Profile

end GpuProfile
