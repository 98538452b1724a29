import GpuProfile.Proofs.EntryOrder
import GpuProfile.Proofs.SharedIdentifiers

/-!
Sums along the command tree. A command is computed from all groups under it at once; that comes to
the same as adding up its children and the groups at the command itself, because each group under a
command lies under just one of its children.
-/

namespace GpuProfile

namespace CommandIndex

def parent (index : CommandIndex) : CommandIndex := ⟨index.parts.dropLast⟩

def towards (a b : CommandIndex) : CommandIndex := ⟨b.parts.take (a.depth + 1)⟩

theorem parent_towards {a b : CommandIndex} (h : a.IsAbove b) (hne : b ≠ a) : (a.towards b).parent = a := by
  obtain ⟨⟨parts⟩, ⟨parts'⟩⟩ := a, b
  obtain ⟨-, rest, he⟩ := h
  simp only at he
  subst he
  cases rest with
  | nil => exact absurd (by simp) hne
  | cons part rest => simp [towards, parent, depth, List.take_append]

theorem isAbove_iff_towards {a b c : CommandIndex} (ha : a.parts ≠ []) (hc : c.parent = a) :
    c.IsAbove b ↔ (a.IsAbove b ∧ b ≠ a) ∧ a.towards b = c := by
  have hne : c.parts ≠ [] := by
    rintro hnil
    apply ha
    rw [← hc, parent, hnil]
    rfl
  have hlength : c.parts.length = a.depth + 1 := by
    have hpos := List.length_pos_iff.mpr hne
    rw [← hc, parent, depth, List.length_dropLast]
    omega
  have htake : a.towards b = c ↔ c.parts <+: b.parts := by
    rw [List.prefix_iff_eq_take, hlength, towards]
    cases c
    simp [eq_comm]
  rw [htake]
  constructor
  · intro h
    refine ⟨⟨⟨ha, ?_⟩, ?_⟩, h.2⟩
    · rw [← hc]
      exact (List.dropLast_prefix _).trans h.2
    · rintro rfl
      have hle := h.2.length_le
      rw [hlength, depth] at hle
      omega
  · intro h
    exact ⟨hne, h.2⟩

end CommandIndex

section

variable {M : Type} [AddCommMonoid M]

theorem sum_under_eq {groups : Finset Group} (f : Group → M) {a : CommandIndex} (ha : a.parts ≠ [])
    (children : Finset CommandIndex) (hparent : ∀ c ∈ children, c.parent = a)
    (hall : ∀ g ∈ groups, a.IsAbove g.command → g.command ≠ a → a.towards g.command ∈ children) :
    ∑ g ∈ groups with a.IsAbove g.command, f g =
      ∑ c ∈ children, ∑ g ∈ groups with c.IsAbove g.command, f g + ∑ g ∈ groups with g.command = a, f g := by
  have hbelow : ∑ c ∈ children, ∑ g ∈ groups with c.IsAbove g.command, f g =
      ∑ g ∈ groups with a.IsAbove g.command ∧ g.command ≠ a, f g := by
    have hmaps : ∀ g ∈ groups.filter (fun g => a.IsAbove g.command ∧ g.command ≠ a),
        a.towards g.command ∈ children := by
      intro g hg
      rw [Finset.mem_filter] at hg
      exact hall g hg.1 hg.2.1 hg.2.2
    rw [← Finset.sum_fiberwise_of_maps_to hmaps]
    apply Finset.sum_congr rfl
    intro c hc
    rw [Finset.filter_filter]
    apply Finset.sum_congr _ fun _ _ => rfl
    apply Finset.filter_congr
    intro g _
    exact CommandIndex.isAbove_iff_towards ha (hparent c hc)
  have hown : ∑ g ∈ groups with g.command = a, f g =
      ∑ g ∈ groups with a.IsAbove g.command ∧ ¬g.command ≠ a, f g := by
    apply Finset.sum_congr _ fun _ _ => rfl
    apply Finset.filter_congr
    intro g _
    constructor
    · intro he
      exact ⟨⟨ha, by rw [he]⟩, not_not.mpr he⟩
    · exact fun h => not_not.mp h.2
  rw [hbelow, hown, ← Finset.sum_filter_add_sum_filter_not _ (fun g => g.command ≠ a), Finset.filter_filter,
    Finset.filter_filter]

theorem mem_children {α : Type} {entries : List (Entry α)} {a c : CommandIndex} :
    c ∈ (entries.filter (·.command.parent = a)).map (·.command) ↔ c ∈ entries.map (·.command) ∧ c.parent = a := by
  simp only [List.mem_map, List.mem_filter, decide_eq_true_eq]
  constructor
  · rintro ⟨e, ⟨he, hparent⟩, rfl⟩
    exact ⟨⟨e, he, rfl⟩, hparent⟩
  · rintro ⟨⟨e, he, rfl⟩, hparent⟩
    exact ⟨e, ⟨he, hparent⟩, rfl⟩

theorem sum_level {α : Type} {entries : List (Entry α)} {groups : Finset Group}
    (hnodup : (entries.map (·.command)).Nodup)
    (hmem : ∀ c, c ∈ entries.map (·.command) ↔ ∃ g ∈ groups, c.IsAbove g.command) (f : Group → M)
    (total : Entry α → M) (htotal : ∀ e ∈ entries, total e = ∑ g ∈ groups with e.command.IsAbove g.command, f g)
    {e : Entry α} (he : e ∈ entries) :
    total e = ((entries.filter (·.command.parent = e.command)).map total).sum +
      ∑ g ∈ groups with g.command = e.command, f g := by
  have hchildren : ((entries.filter (·.command.parent = e.command)).map (·.command)).Nodup :=
    hnodup.sublist (List.filter_sublist.map _)
  obtain ⟨_, -, habove⟩ := (hmem _).mp (List.mem_map_of_mem he)
  rw [htotal e he, sum_under_eq f habove.1
    ((entries.filter (·.command.parent = e.command)).map (·.command)).toFinset,
    List.sum_toFinset _ hchildren, List.map_map]
  · congr 2
    apply List.map_congr_left
    intro e' he'
    exact (htotal e' (List.mem_filter.mp he').1).symm
  · intro c hc
    exact (mem_children.mp (List.mem_toFinset.mp hc)).2
  · intro g hg habove' hne
    have hparent := CommandIndex.parent_towards habove' hne
    have hchild := (CommandIndex.isAbove_iff_towards habove.1 hparent).mpr ⟨⟨habove', hne⟩, rfl⟩
    exact List.mem_toFinset.mpr (mem_children.mpr ⟨(hmem _).mpr ⟨g, hg, hchild⟩, hparent⟩)

end

namespace Profile

section

variable {α : Type} [Quantity α] {t : Timeline} {cs : List (Counter α)} {leaves : Leaves α}

theorem sum_leaf_isSome (h : leavesOf t cs = .ok leaves) (hn : (t.groups.map (·.id)).Nodup)
    (hsize : cs.length + 2 ≤ UInt32.size) {metric : Metric} (hm : metric ∈ metricsOf cs)
    (ho : metric.operator = .summation) {g : Group} (hg : g ∈ t.groups) :
    (leaves.value? g.id metric.id).isSome := by
  obtain ⟨b, -, hgpu, hwall⟩ := leavesOf_times h hn hsize hg
  rcases mem_metricsOf.mp hm with rfl | rfl | ⟨k, c, hk, rfl⟩
  · rw [hgpu]
    rfl
  · rw [hwall]
    rfl
  · have hc : c.operator = .summation := ho
    rw [leavesOf_counter h hn hsize hg hk (by rw [hc]; rfl), Prepared.perf?, hc]
    rfl

end

variable {t : Timeline} {cs : List (Counter ℚ)} {p : Profile ℚ}

theorem summed_by_level (h : compute t cs = .ok p) (hsize : cs.length + 2 ≤ UInt32.size) {metric : Metric}
    (hm : metric ∈ p.metrics) (ho : metric.operator = .summation) :
    ∃ leaves, leavesOf t cs = .ok leaves ∧ (∀ g ∈ t.groups, (leaves.value? g.id metric.id).isSome) ∧
      ∀ e ∈ p.entries, ∃ v, e.values.get? metric.id = some v ∧ ∀ f ∈ [Perf.estimate, Perf.min, Perf.max],
        f v = ((p.entries.filter (·.command.parent = e.command)).map fun e' =>
            ((e'.values.get? metric.id).map f).getD 0).sum +
          ∑ g ∈ t.groups.toFinset with g.command = e.command, ((leaves.value? g.id metric.id).map f).getD 0 ∧
        f v = ∑ g ∈ t.groups.toFinset with e.command.IsAbove g.command,
          ((leaves.value? g.id metric.id).map f).getD 0 := by
  obtain ⟨hcheck, leaves, hleaves, rfl⟩ := compute_eq_ok_iff.mp h
  have hn := (checkTraces_eq_ok_iff.mp hcheck).1
  refine ⟨leaves, hleaves, fun g hg => sum_leaf_isSome hleaves hn hsize hm ho hg, fun e he => ?_⟩
  refine ⟨_, sumOf_entry hleaves hn hsize hm ho he, fun f hf => ?_⟩
  have hentry : ∀ e' ∈ leaves.merge (metricsOf cs), ((e'.values.get? metric.id).map f).getD 0 =
      ∑ g ∈ t.groups.toFinset with e'.command.IsAbove g.command,
        ((leaves.value? g.id metric.id).map f).getD 0 := by
    intro e' he'
    rw [sumOf_entry hleaves hn hsize hm ho he']
    simp only [List.mem_cons, List.not_mem_nil, or_false] at hf
    rcases hf with rfl | rfl | rfl <;> rfl
  have hcommands : ∀ c, c ∈ (leaves.merge (metricsOf cs)).map (·.command) ↔
      ∃ g ∈ t.groups.toFinset, c.IsAbove g.command := by
    simpa only [List.mem_toFinset] using fun c => mem_commands hleaves hn
  have hlevel := sum_level (leaves.nodup_merge_commands _) hcommands _ _ hentry he
  have htotal := hentry e he
  rw [sumOf_entry hleaves hn hsize hm ho he] at hlevel htotal
  exact ⟨hlevel, htotal⟩

def Nested.timeline : Timeline where
  slices := [⟨1, 0, 0, 10⟩, ⟨2, 0, 5, 20⟩, ⟨3, 0, 30, 7⟩, ⟨1, 0, 35, 15⟩]
  groups := [⟨1, ⟨[0]⟩⟩, ⟨2, ⟨[0, 3]⟩⟩, ⟨3, ⟨[0, 3]⟩⟩, ⟨4, ⟨[]⟩⟩]

def Nested.drift : Counter ℚ := ⟨"Drift", "", #[0, 10, 20, 40], #[7, 3, -5, 2], .summation⟩

theorem nested_by_level : ∃ p, compute Nested.timeline [Nested.drift] = .ok p ∧
    p.entries.map (·.command.parts) = [[0], [0, 3]] ∧
    ∃ leaves, leavesOf Nested.timeline [Nested.drift] = .ok leaves ∧ ∀ e ∈ p.entries, ∃ v, e.values.get? 2 = some v ∧
      v.estimate = ((p.entries.filter (·.command.parent = e.command)).map fun e' =>
          ((e'.values.get? 2).map (·.estimate)).getD 0).sum +
        ∑ g ∈ Nested.timeline.groups.toFinset with g.command = e.command,
          ((leaves.value? g.id 2).map (·.estimate)).getD 0 := by
  have hcommands : (compute Nested.timeline [Nested.drift]).toOption.map (·.entries.map (·.command.parts)) =
      some [[0], [0, 3]] := by cbv
  obtain ⟨p, hp, hparts⟩ := ok_of_toOption_map hcommands
  have hmetric : Metric.ofCounter 0 Nested.drift ∈ p.metrics := by
    obtain ⟨-, leaves, -, rfl⟩ := compute_eq_ok_iff.mp hp
    exact ofCounter_mem_metricsOf rfl
  obtain ⟨leaves, hleaves, -, hlevel⟩ := summed_by_level hp (by decide) hmetric rfl
  refine ⟨p, hp, hparts, leaves, hleaves, fun e he => ?_⟩
  obtain ⟨v, hv, hsums⟩ := hlevel e he
  exact ⟨v, hv, (hsums Perf.estimate List.mem_cons_self).1⟩

-- An average that has the identifier of the GPU time is no sum over the tree.
theorem relief_average_in_place :
    ∃ p leaves, compute Relief.timeline (apart [] (UInt32.size - 2) Relief.clock) = .ok p ∧
      leavesOf Relief.timeline (apart [] (UInt32.size - 2) Relief.clock) = .ok leaves ∧ Metric.gpuTime ∈ p.metrics ∧
      ∃ e ∈ p.entries, ∃ v, e.values.get? Metric.gpuTime.id = some v ∧
        v.estimate ≠ ((p.entries.filter (·.command.parent = e.command)).map fun e' =>
            ((e'.values.get? Metric.gpuTime.id).map (·.estimate)).getD 0).sum +
          ∑ g ∈ Relief.timeline.groups.toFinset with g.command = e.command,
            ((leaves.value? g.id Metric.gpuTime.id).map (·.estimate)).getD 0 := by
  obtain ⟨p, leaves, hp, hleaves, e, he, hvalue⟩ := root_apart Relief.timeline [] (UInt32.size - 2) Relief.clock
    (fun _ entries e => (e.command, (e.values.get? Metric.gpuTime.id).map (·.estimate),
      ((entries.filter (·.command.parent = e.command)).map fun e' =>
        ((e'.values.get? Metric.gpuTime.id).map (·.estimate)).getD 0).sum))
    (y := (⟨[0]⟩, some (10 / 3), 6)) (by decide) (by decide) rfl (by cbv)
  obtain ⟨hcommand, hvalue⟩ := Prod.mk.inj hvalue
  obtain ⟨hget, hchildren⟩ := Prod.mk.inj hvalue
  obtain ⟨v, hv, hestimate⟩ := Option.map_eq_some_iff.mp hget
  have hmetric : Metric.gpuTime ∈ p.metrics := by
    obtain ⟨-, -, -, rfl⟩ := compute_eq_ok_iff.mp hp
    exact List.mem_cons_self
  refine ⟨p, leaves, hp, hleaves, hmetric, e, he, v, hv, ?_⟩
  have hown : Relief.timeline.groups.toFinset.filter (fun g => g.command = e.command) = ∅ := by
    rw [hcommand]
    decide
  rw [hestimate, hchildren, hown, Finset.sum_empty]
  norm_num

end Profile

end GpuProfile
