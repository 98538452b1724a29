import GpuProfile.Proofs.FrameSpans
import GpuProfile.Proofs.SampleShares

namespace GpuProfile

def Leaves.estimate (leaves : Leaves ℚ) (metric : MetricId) (g : Group) : ℚ :=
  ((leaves.value? g.id metric).map (·.estimate)).getD 0

namespace Profile

variable {t : Timeline} {cs : List (Counter ℚ)} {p : Profile ℚ} {leaves : Leaves ℚ} {metric : Metric}

theorem estimate_nonneg_of_samples (h : leavesOf t cs = .ok leaves) (hn : (t.groups.map (·.id)).Nodup)
    (hinc : ∀ c ∈ cs, c.Increasing) (hsize : cs.length + 2 ≤ UInt32.size) (hm : metric ∈ metricsOf cs)
    (ho : metric.operator = .summation)
    (hv : ∀ k c, cs[k]? = some c → metric = Metric.ofCounter k c → ∀ x ∈ c.values, 0 ≤ x) (g : Group) :
    0 ≤ leaves.estimate metric.id g := by
  cases hcommand : leaves.command? g.id with
  | none =>
    have hget : leaves.get? g.id = none := Option.map_eq_none_iff.mp hcommand
    rw [Leaves.estimate, Leaves.value?, hget]
    exact le_rfl
  | some command =>
    obtain ⟨g', hg, he⟩ : ∃ g' ∈ t.groups, g'.id = g.id := ⟨⟨g.id, command⟩, (leavesOf_command? h hn).mp hcommand, rfl⟩
    rw [Leaves.estimate, ← he]
    rcases mem_metricsOf.mp hm with rfl | rfl | ⟨k, c, hk, rfl⟩
    · exact busy_nonneg h hn hsize hg
    · obtain ⟨b, -, -, hwall⟩ := leavesOf_times h hn hsize hg
      rw [hwall]
      exact Nat.cast_nonneg b.wall
    · have hc : c.operator = .summation := ho
      have hvalues := hv k c hk rfl
      have hincreasing := hinc c (List.mem_of_getElem? hk)
      rw [leavesOf_counter h hn hsize hg hk (by rw [hc]; rfl), t.prepare.estimate_perf? hc]
      exact estimate_sum_nonneg hincreasing hvalues g'.id

section

variable (h : compute t cs = .ok p) (hsize : cs.length + 2 ≤ UInt32.size) (hm : metric ∈ p.metrics)
  (ho : metric.operator = .summation) {path : List UInt64} (hne : path ≠ []) {node : CommandTree ℚ}
  (hnode : (CommandTree.ofEntries metric.id p.entries).at? path = some node)

include h hsize hm ho hne hnode

theorem entry_of_node : ∃ e ∈ p.entries, e.command = ⟨path⟩ ∧ e.values.get? metric.id = some node.perf := by
  obtain ⟨hcheck, leaves, hleaves, rfl⟩ := compute_eq_ok_iff.mp h
  have hn := (checkTraces_eq_ok_iff.mp hcheck).1
  have hperf := CommandTree.perf_at?_ofEntries metric.id (leaves.merge (metricsOf cs)) hne
  rw [hnode, Option.map_some] at hperf
  obtain ⟨⟨e, he, -, hbelow⟩, hlast⟩ := Option.ite_none_right_eq_some.mp hperf.symm
  obtain ⟨g, hg, habove⟩ := (mem_commands hleaves hn).mp (List.mem_map_of_mem he)
  obtain ⟨e', he', hcommand⟩ := List.mem_map.mp <|
    (mem_commands hleaves hn).mpr ⟨g, hg, show (⟨path⟩ : CommandIndex).IsAbove _ from ⟨hne, hbelow.trans habove.2⟩⟩
  have hvalues : ((leaves.merge (metricsOf cs)).filter (·.command = ⟨path⟩)).filterMap (·.values.get? metric.id) ≠
      [] :=
    List.ne_nil_of_mem <| List.mem_filterMap.mpr
      ⟨e', List.mem_filter.mpr ⟨he', decide_eq_true hcommand⟩, sumOf_entry hleaves hn hsize hm ho he'⟩
  rw [List.getLast?_eq_some_getLast hvalues, Option.getD_some] at hlast
  have hmem := List.getLast_mem hvalues
  rw [Option.some.inj hlast] at hmem
  obtain ⟨e'', he'', hget⟩ := List.mem_filterMap.mp hmem
  obtain ⟨hentry, hcommand''⟩ := List.mem_filter.mp he''
  exact ⟨e'', hentry, of_decide_eq_true hcommand'', hget⟩

theorem estimate_node (hleaves : leavesOf t cs = .ok leaves) : node.perf.estimate =
    ∑ g ∈ t.groups.toFinset with (⟨path⟩ : CommandIndex).IsAbove g.command,
      leaves.estimate metric.id g := by
  obtain ⟨e, he, hcommand, hget⟩ := entry_of_node h hsize hm ho hne hnode
  obtain ⟨hcheck, leaves', hleaves', rfl⟩ := compute_eq_ok_iff.mp h
  obtain rfl : leaves' = leaves := Except.ok.inj (hleaves'.symm.trans hleaves)
  rw [sumOf_entry hleaves (checkTraces_eq_ok_iff.mp hcheck).1 hsize hm ho he, hcommand] at hget
  exact (congrArg Perf.estimate (Option.some.inj hget)).symm

section

variable (hleaves : leavesOf t cs = .ok leaves)
  (hvalue : ∀ g, 0 ≤ leaves.estimate metric.id g)

include hleaves hvalue

theorem weight_node : node.weight =
    ∑ g ∈ t.groups.toFinset with (⟨path⟩ : CommandIndex).IsAbove g.command,
      leaves.estimate metric.id g := by
  rw [CommandTree.weight_exact, estimate_node h hsize hm ho hne hnode hleaves]
  exact max_eq_right (Finset.sum_nonneg fun g _ => hvalue g)

theorem sum_children_le : (node.children.map (·.2.weight)).sum ≤ node.weight := by
  have hindexed := (CommandTree.indexed_ofEntries metric.id p.entries).1
  have hascending := hindexed.ascending path node hnode
  have hchild : ∀ c ∈ node.children, c.2.weight =
      ∑ g ∈ t.groups.toFinset.filter (fun g => (⟨path⟩ : CommandIndex).IsAbove g.command)
        with (CommandIndex.child ⟨path⟩ c.1).IsAbove g.command,
        leaves.estimate metric.id g := by
    intro c hc
    have hat := CommandTree.at?_child hnode c.1
    rw [(Pairs.get?_eq_some_iff hascending).mpr hc] at hat
    rw [weight_node h hsize hm ho (List.concat_ne_nil _ _) hat hleaves hvalue, Finset.filter_filter]
    refine Finset.sum_congr (Finset.filter_congr fun g _ => ?_) fun _ _ => rfl
    exact ⟨fun habove => ⟨CommandIndex.isAbove_of_child hne habove, habove⟩, And.right⟩
  have hcommands : (node.children.map fun c => CommandIndex.child ⟨path⟩ c.1).Nodup := by
    have hkeys := (⟨node.children, hascending⟩ : SortedMap UInt64 (CommandTree ℚ)).nodup_keys
    have hinj : Function.Injective (CommandIndex.child ⟨path⟩) := fun a b he => by simpa [CommandIndex.child] using he
    have hmap := hkeys.map hinj
    rwa [SortedMap.keys, List.map_map] at hmap
  have hdepth : ∀ command ∈ node.children.map fun c => CommandIndex.child ⟨path⟩ c.1,
      command.depth = path.length + 1 := by
    rw [List.forall_mem_map]
    exact fun c _ => List.length_append
  calc (node.children.map (·.2.weight)).sum
      = ((node.children.map fun c => CommandIndex.child ⟨path⟩ c.1).map fun command =>
          ∑ g ∈ t.groups.toFinset.filter (fun g => (⟨path⟩ : CommandIndex).IsAbove g.command)
            with command.IsAbove g.command, leaves.estimate metric.id g).sum := by
        rw [List.map_map, List.map_congr_left hchild]
        rfl
    _ ≤ ∑ g ∈ t.groups.toFinset with (⟨path⟩ : CommandIndex).IsAbove g.command, leaves.estimate metric.id g :=
        sum_roots_le hvalue hcommands hdepth
    _ = node.weight := (weight_node h hsize hm ho hne hnode hleaves hvalue).symm

end

end

theorem weight_total (tree : CommandTree ℚ) :
    ((CommandTree.total tree).children.map (·.2.weight)).sum = (CommandTree.total tree).weight := by
  cases tree with
  | node command perf children =>
    have hsum : 0 ≤ (children.map (·.2.weight)).sum := List.sum_nonneg fun w hw => by
      obtain ⟨c, -, rfl⟩ := List.mem_map.mp hw
      exact c.2.weight_nonneg
    rw [CommandTree.weight_exact, CommandTree.total, CommandTree.perf, Perf.exact, sum_exact, max_eq_right hsum]
    rfl

section

variable {width : ℕ} {f : Frame ℚ}

theorem within_root {entries : List (Entry ℚ)} {id : MetricId} (hf : f ∈ (CommandTree.ofEntries id entries).frames width)
    (he : f.command = ⟨[]⟩) : ∀ g ∈ (CommandTree.ofEntries id entries).frames width, g.Over f → g.span ⊆ f.span := by
  obtain ⟨hindexed, hroot⟩ := CommandTree.indexed_ofEntries id entries
  have hnode := (CommandTree.root_frame hindexed hroot hf he).1
  exact CommandTree.within_of_sum_le hindexed hroot hf hnode (weight_total _).le

theorem within_of_samples (h : compute t cs = .ok p) (hsize : cs.length + 2 ≤ UInt32.size) (hm : metric ∈ p.metrics)
    (ho : metric.operator = .summation)
    (hv : ∀ k c, cs[k]? = some c → metric = Metric.ofCounter k c → ∀ x ∈ c.values, 0 ≤ x)
    (hf : f ∈ (CommandTree.ofEntries metric.id p.entries).frames width) :
    ∀ g ∈ (CommandTree.ofEntries metric.id p.entries).frames width, g.Over f → g.span ⊆ f.span := by
  by_cases he : f.command = ⟨[]⟩
  · exact within_root hf he
  obtain ⟨hindexed, hroot⟩ := CommandTree.indexed_ofEntries metric.id p.entries
  obtain ⟨-, node, hnode⟩ := CommandTree.mem_frames_iff.mp hf
  obtain ⟨hn, hinc, leaves, hleaves, -⟩ := parts_of_compute h
  have hmetric : metric ∈ metricsOf cs := by
    obtain ⟨-, leaves', -, rfl⟩ := compute_eq_ok_iff.mp h
    exact hm
  have hvalue := estimate_nonneg_of_samples hleaves hn hinc hsize hmetric ho hv
  have hpath : f.command.parts ≠ [] := fun hnil => he (congrArg CommandIndex.mk hnil)
  have hsum := sum_children_le h hsize hm ho hpath (hnode.at?_command hindexed hroot).1 hleaves hvalue
  exact CommandTree.within_of_sum_le hindexed hroot hf hnode hsum

end

/-- The drawing of a summed metric. The frames of the children of a command begin within its own and are apart, and
those of root commands lie within the root's. Children that are drawn lie within their parent just when they are less
than two or have together no more than its value, negative values being zero; which holds of all commands, so that
every frame lies within the page, unless a sample of the metric is negative. -/
theorem frames_nested (h : compute t cs = .ok p) (hsize : cs.length + 2 ≤ UInt32.size) (hm : metric ∈ p.metrics)
    (ho : metric.operator = .summation) (width : ℕ) :
    let frames := (CommandTree.ofEntries metric.id p.entries).frames width
    (∀ f ∈ frames, f.command = ⟨[]⟩ →
      f.span = Set.Icc 0 (width : ℚ) ∧ ∀ g ∈ frames, g.Over f → g.span ⊆ f.span) ∧
    (∀ g ∈ frames, g.command ≠ ⟨[]⟩ → (∃ f ∈ frames, g.Over f) ∧
      ∃ e ∈ p.entries, e.command = g.command ∧ e.values.get? metric.id = some g.perf) ∧
    (∀ f ∈ frames, ∀ g ∈ frames, g.Over f → f.x ≤ g.x ∧ g.width ≤ f.width) ∧
    (∀ f ∈ frames, ∀ g ∈ frames, ∀ g' ∈ frames, g.Over f → g'.Over f → g ≠ g' →
      (g.span ∩ g'.span).Subsingleton) ∧
    (∀ f ∈ frames, (∀ g ∈ frames, g.Over f → g.span ⊆ f.span) ↔
      (frames.filter (·.Over f)).length ≤ 1 ∨
        ((frames.filter (·.Over f)).map fun g => max 0 g.perf.estimate).sum ≤ max 0 f.perf.estimate) ∧
    ((∀ k c, cs[k]? = some c → metric = Metric.ofCounter k c → ∀ x ∈ c.values, 0 ≤ x) →
      (∀ f ∈ frames, ∀ g ∈ frames, g.Over f → g.span ⊆ f.span) ∧
      ∀ f ∈ frames, f.span ⊆ Set.Icc 0 (width : ℚ)) := by
  intro frames
  obtain ⟨hindexed, hroot⟩ := CommandTree.indexed_ofEntries metric.id p.entries
  refine ⟨fun f hf he => ⟨(CommandTree.root_frame hindexed hroot hf he).2, within_root hf he⟩,
    fun g hg hne => ⟨CommandTree.exists_over hindexed hroot hg hne, ?_⟩,
    fun f hf g hg hover => CommandTree.bounds_of_over hindexed hroot hf hg hover,
    fun f hf g hg g' hg' hover hover' hne => CommandTree.apart_of_over hindexed hroot hf hg hover hg' hover' hne,
    fun f hf => ?_, fun hv => ?_⟩
  · obtain ⟨-, node, hnode⟩ := CommandTree.mem_frames_iff.mp hg
    have hpath : g.command.parts ≠ [] := fun hnil => hne (congrArg CommandIndex.mk hnil)
    rw [hnode.eq_mk, ← hnode.command_eq]
    exact entry_of_node h hsize hm ho hpath (hnode.at?_command hindexed hroot).1
  · have hweight : (Frame.weight : Frame ℚ → ℚ) = fun f => max 0 f.perf.estimate := funext Frame.weight_exact
    rw [← Frame.weight_exact, ← hweight]
    exact CommandTree.within_iff hindexed hroot hf
  · have hall := fun f (hf : f ∈ frames) => within_of_samples h hsize hm ho hv hf
    exact ⟨hall, fun f hf => CommandTree.within_page hindexed hroot hall hf⟩

theorem sketch_nested : ∃ p, compute Sketch.timeline [Sketch.occupancy, Sketch.reads] = .ok p ∧
    ((CommandTree.ofEntries 3 p.entries).frames 200).map (·.command.parts) = [[], [0], [0, 0], [0, 1], [0, 1, 4]] ∧
    ∀ f ∈ (CommandTree.ofEntries 3 p.entries).frames 200, f.span ⊆ Set.Icc 0 200 := by
  have hparts : (compute Sketch.timeline [Sketch.occupancy, Sketch.reads]).toOption.map
      (fun p => ((CommandTree.ofEntries 3 p.entries).frames 200).map (·.command.parts)) =
        some [[], [0], [0, 0], [0, 1], [0, 1, 4]] := by cbv
  obtain ⟨p, hp, hframes⟩ := ok_of_toOption_map hparts
  have hmetric : Metric.ofCounter 1 Sketch.reads ∈ p.metrics := by
    obtain ⟨-, leaves, -, rfl⟩ := compute_eq_ok_iff.mp hp
    exact ofCounter_mem_metricsOf rfl
  obtain ⟨-, -, -, -, -, hnested⟩ := frames_nested hp (by decide) hmetric rfl 200
  refine ⟨p, hp, hframes, (hnested fun k c hk he => ?_).2⟩
  rcases k with _ | _ | k
  · cases hk
    exact absurd (congrArg Metric.name he) (by decide)
  · cases hk
    decide
  · cases hk

def Drift.timeline : Timeline where
  slices := [⟨1, 0, 9, 12⟩, ⟨2, 0, 29, 12⟩, ⟨3, 0, 49, 12⟩]
  groups := [⟨1, ⟨[0, 0]⟩⟩, ⟨2, ⟨[0, 1]⟩⟩, ⟨3, ⟨[0, 2]⟩⟩]

def Drift.counter : Counter ℚ :=
  ⟨"Drift", "", #[10, 20, 30, 40, 50, 60], #[0, 10, 0, 10, 0, -19], .summation⟩

-- Each of the two children that are drawn has ten times the value of their parent, and so is as wide as it.
theorem drift_not_nested : ∃ p, compute Drift.timeline [Drift.counter] = .ok p ∧
    ∃ metric ∈ p.metrics, metric.operator = .summation ∧
      ∃ f ∈ (CommandTree.ofEntries metric.id p.entries).frames 200,
        ∃ g ∈ (CommandTree.ofEntries metric.id p.entries).frames 200, g.Over f ∧
          f.span = Set.Icc 0 200 ∧ g.span = Set.Icc 200 400 ∧ ¬g.span ⊆ f.span := by
  have hplaces : (compute Drift.timeline [Drift.counter]).toOption.map
      (fun p => ((CommandTree.ofEntries 2 p.entries).frames 200).map fun f => (f.level, f.command, f.x, f.width)) =
        some [(0, ⟨[]⟩, 0, 200), (1, ⟨[0]⟩, 0, 200), (2, ⟨[0, 0]⟩, 0, 200), (2, ⟨[0, 1]⟩, 200, 200)] := by cbv
  obtain ⟨p, hp, hframes⟩ := ok_of_toOption_map hplaces
  have hmetric : Metric.ofCounter 0 Drift.counter ∈ p.metrics := by
    obtain ⟨-, leaves, -, rfl⟩ := compute_eq_ok_iff.mp hp
    exact ofCounter_mem_metricsOf rfl
  have hplace : ∀ place ∈ [(0, ⟨[]⟩, 0, 200), (1, ⟨[0]⟩, 0, 200), (2, ⟨[0, 0]⟩, 0, 200), (2, ⟨[0, 1]⟩, 200, 200)],
      ∃ f ∈ (CommandTree.ofEntries 2 p.entries).frames 200, (f.level, f.command, f.x, f.width) = place := by
    intro place hmem
    rw [← hframes] at hmem
    exact List.mem_map.mp hmem
  obtain ⟨f, hf, heq⟩ := hplace (1, ⟨[0]⟩, 0, 200) (by decide)
  obtain ⟨g, hg, heq'⟩ := hplace (2, ⟨[0, 1]⟩, 200, 200) (by decide)
  simp only [Prod.mk.injEq] at heq heq'
  obtain ⟨hlevel, hcommand, hx, hwidth⟩ := heq
  obtain ⟨hlevel', hcommand', hx', hwidth'⟩ := heq'
  have hspan : f.span = Set.Icc 0 200 := by rw [Frame.span, hx, hwidth, zero_add]
  have hspan' : g.span = Set.Icc 200 400 := by
    rw [Frame.span, hx', hwidth']
    norm_num
  refine ⟨p, hp, _, hmetric, rfl, f, hf, g, hg, ⟨?_, ?_⟩, hspan, hspan', ?_⟩
  · rw [hlevel, hlevel']
  · rw [hcommand, hcommand']
    rfl
  · rw [hspan, hspan', Set.Icc_subset_Icc_iff (by norm_num)]
    norm_num

end Profile

end GpuProfile
