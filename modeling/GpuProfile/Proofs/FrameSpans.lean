import GpuProfile.Proofs.DrawnFrames
import GpuProfile.Proofs.ExactSamples
import GpuProfile.Proofs.TreeSums

namespace GpuProfile

theorem CommandIndex.parent_child (index : CommandIndex) (part : UInt64) : (index.child part).parent = index := by
  simp [parent, child]

theorem Quantity.atLeastZero_exact (x : ℚ) : Quantity.atLeastZero x = max 0 x := by
  rw [atLeastZero, max_def]
  split_ifs with h h' h'
  · rfl
  · exact absurd (of_decide_eq_true h).le h'
  · exact le_antisymm h' (not_lt.mp fun hpos => h (decide_eq_true hpos))
  · rfl

namespace Frame

def Over {α : Type} (g f : Frame α) : Prop := g.level = f.level + 1 ∧ g.command.parent = f.command

instance {α : Type} (g f : Frame α) : Decidable (g.Over f) := inferInstanceAs (Decidable (_ ∧ _))

instance {α : Type} [Quantity α] (f : Frame α) : Decidable f.Visible := inferInstanceAs (Decidable (_ = false))

def weight {α : Type} [Quantity α] (f : Frame α) : α := Quantity.atLeastZero f.perf.estimate

theorem weight_exact (f : Frame ℚ) : f.weight = max 0 f.perf.estimate := Quantity.atLeastZero_exact _

def span (f : Frame ℚ) : Set ℚ := Set.Icc f.x (f.x + f.width)

theorem visible_iff {f : Frame ℚ} : f.Visible ↔ 1 / 2 ≤ f.width := by
  rw [← not_lt]
  exact decide_eq_false_iff_not

theorem Visible.width_pos {f : Frame ℚ} (h : f.Visible) : 0 < f.width := by
  have := visible_iff.mp h
  linarith

theorem span_subset_iff {f g : Frame ℚ} (h : 0 ≤ g.width) :
    g.span ⊆ f.span ↔ f.x ≤ g.x ∧ g.x + g.width ≤ f.x + f.width :=
  Set.Icc_subset_Icc_iff (le_add_of_nonneg_right h)

theorem span_inter_of_le {f g : Frame ℚ} (h : f.x + f.width ≤ g.x) : (f.span ∩ g.span).Subsingleton := by
  rintro a ⟨⟨-, ha⟩, ha', -⟩ b ⟨⟨-, hb⟩, hb', -⟩
  exact le_antisymm ((ha.trans h).trans hb') ((hb.trans h).trans ha')

end Frame

namespace CommandTree

theorem weight_exact (tree : CommandTree ℚ) : tree.weight = max 0 tree.perf.estimate := Quantity.atLeastZero_exact _

theorem weight_nonneg (tree : CommandTree ℚ) : 0 ≤ tree.weight := by
  rw [weight_exact]
  exact le_max_left _ _

theorem portion_exact (child parent : ℚ) : portion child parent = min (child / parent) 1 := by
  rw [portion, min_def]
  split_ifs with h h' h'
  · rfl
  · exact absurd (of_decide_eq_true h).le h'
  · exact le_antisymm (not_lt.mp fun hlt => h (decide_eq_true hlt)) h'
  · rfl

theorem portion_le_one (child parent : ℚ) : portion child parent ≤ 1 := by
  rw [portion_exact]
  exact min_le_right _ _

theorem portion_nonneg {child parent : ℚ} (hc : 0 ≤ child) (hp : 0 ≤ parent) : 0 ≤ portion child parent := by
  rw [portion_exact]
  exact le_min (div_nonneg hc hp) zero_le_one

theorem portion_mono {a b parent : ℚ} (h : a ≤ b) (hp : 0 ≤ parent) : portion a parent ≤ portion b parent := by
  rw [portion_exact, portion_exact]
  exact min_le_min_right _ (div_le_div_of_nonneg_right h hp)

theorem byWeight_descending (children : List (UInt64 × CommandTree ℚ)) :
    (byWeight children).Pairwise fun a b => b.2.weight ≤ a.2.weight := by
  have hle : ∀ a b : UInt64 × CommandTree ℚ,
      (Quantity.rank b.2.weight a.2.weight).isLE ↔ b.2.weight ≤ a.2.weight := by
    intro a b
    simp only [Quantity.rank]
    split_ifs with hlt heq
    · simpa using hlt.le
    · simpa using heq.le
    · simpa using lt_of_le_of_ne (not_lt.mp hlt) (Ne.symm heq)
  have hsorted : (byWeight children).Pairwise fun a b => (Quantity.rank b.2.weight a.2.weight).isLE := by
    refine List.pairwise_mergeSort (fun a b c hab hbc => ?_) (fun a b => ?_) children
    · exact (hle a c).mpr (((hle b c).mp hbc).trans ((hle a b).mp hab))
    · rw [Bool.or_eq_true, hle, hle]
      exact le_total _ _
  exact hsorted.imp fun h => (hle _ _).mp h

def row (f : Frame ℚ) (weight x : ℚ) : List (UInt64 × CommandTree ℚ) → List (Frame ℚ)
  | [] => []
  | c :: rest =>
    ⟨f.level + 1, c.2.command, c.2.perf, x, portion c.2.weight weight * f.width⟩ ::
      row f weight (x + portion c.2.weight weight * f.width) rest

theorem mem_row {f g : Frame ℚ} {weight x : ℚ} {children : List (UInt64 × CommandTree ℚ)} :
    g ∈ row f weight x children ↔ ∃ before part node after, children = before ++ (part, node) :: after ∧
      g = ⟨f.level + 1, node.command, node.perf, offset x f.width weight before,
        portion node.weight weight * f.width⟩ := by
  induction children generalizing x with
  | nil => simp [row]
  | cons c rest ih =>
    rw [row, List.mem_cons, ih, exists_split_cons]
    exact Iff.rfl

theorem map_weight_row (f : Frame ℚ) (weight x : ℚ) (children : List (UInt64 × CommandTree ℚ)) :
    (row f weight x children).map Frame.weight = children.map (·.2.weight) := by
  induction children generalizing x with
  | nil => rfl
  | cons c rest ih =>
    rw [row, List.map_cons, ih]
    rfl

theorem length_row (f : Frame ℚ) (weight x : ℚ) (children : List (UInt64 × CommandTree ℚ)) :
    (row f weight x children).length = children.length := by
  rw [← List.length_map Frame.weight, map_weight_row, List.length_map]

section

variable {f : Frame ℚ} {weight : ℚ} (hweight : 0 ≤ weight) (hwidth : 0 ≤ f.width)

include hweight hwidth

theorem width_nonneg (child : CommandTree ℚ) : 0 ≤ portion child.weight weight * f.width :=
  mul_nonneg (portion_nonneg child.weight_nonneg hweight) hwidth

theorem bounds_of_mem_row {x : ℚ} {children : List (UInt64 × CommandTree ℚ)} {g : Frame ℚ}
    (hg : g ∈ row f weight x children) : x ≤ g.x ∧ g.width ≤ f.width := by
  induction children generalizing x with
  | nil => exact absurd hg List.not_mem_nil
  | cons c rest ih =>
    rcases List.mem_cons.mp hg with rfl | hg
    · exact ⟨le_rfl, mul_le_of_le_one_left hwidth (portion_le_one _ _)⟩
    · obtain ⟨hx, hle⟩ := ih hg
      exact ⟨(le_add_of_nonneg_right (width_nonneg hweight hwidth c.2)).trans hx, hle⟩

theorem row_apart (x : ℚ) (children : List (UInt64 × CommandTree ℚ)) :
    (row f weight x children).Pairwise fun a b => a.x + a.width ≤ b.x := by
  induction children generalizing x with
  | nil => exact List.Pairwise.nil
  | cons c rest ih => exact List.pairwise_cons.mpr ⟨fun g hg => (bounds_of_mem_row hweight hwidth hg).1, ih _⟩

theorem row_descending {children : List (UInt64 × CommandTree ℚ)}
    (h : children.Pairwise fun a b => b.2.weight ≤ a.2.weight) (x : ℚ) :
    (row f weight x children).Pairwise fun a b => b.width ≤ a.width := by
  induction children generalizing x with
  | nil => exact List.Pairwise.nil
  | cons c rest ih =>
    obtain ⟨hc, hrest⟩ := List.pairwise_cons.mp h
    refine List.pairwise_cons.mpr ⟨fun g hg => ?_, ih hrest _⟩
    obtain ⟨before, part, node, after, rfl, rfl⟩ := mem_row.mp hg
    have hle := hc (part, node) (List.mem_append_right _ List.mem_cons_self)
    exact mul_le_mul_of_nonneg_right (portion_mono hle hweight) hwidth

-- Once a frame is too narrow to be drawn, so are all that come after it.
theorem filter_visible_row {children : List (UInt64 × CommandTree ℚ)}
    (h : children.Pairwise fun a b => b.2.weight ≤ a.2.weight) (x : ℚ) : ∃ drawn, drawn <+: children ∧
      (row f weight x children).filter (fun g => g.Visible) = row f weight x drawn := by
  induction children generalizing x with
  | nil => exact ⟨[], List.prefix_rfl, rfl⟩
  | cons c rest ih =>
    by_cases hvisible : (⟨f.level + 1, c.2.command, c.2.perf, x, portion c.2.weight weight * f.width⟩ :
        Frame ℚ).Visible
    · obtain ⟨drawn, hdrawn, hfilter⟩ := ih (List.pairwise_cons.mp h).2 (x + portion c.2.weight weight * f.width)
      refine ⟨c :: drawn, List.cons_prefix_cons.mpr ⟨rfl, hdrawn⟩, ?_⟩
      rw [row, List.filter_cons, if_pos (decide_eq_true hvisible), hfilter, row]
    · refine ⟨[], List.nil_prefix, List.filter_eq_nil_iff.mpr fun g hg hseen => hvisible ?_⟩
      rcases List.mem_cons.mp hg with rfl | hg
      · exact of_decide_eq_true hseen
      · have hle := (List.pairwise_cons.mp (row_descending hweight hwidth h x)).1 g hg
        exact Frame.visible_iff.mpr ((Frame.visible_iff.mp (of_decide_eq_true hseen)).trans hle)

theorem row_ends_iff {x stop : ℚ} {children : List (UInt64 × CommandTree ℚ)} (hx : x ≤ stop) :
    (∀ g ∈ row f weight x children, g.x + g.width ≤ stop) ↔
      x + (children.map fun c => portion c.2.weight weight).sum * f.width ≤ stop := by
  induction children generalizing x with
  | nil => simpa [row] using hx
  | cons c rest ih =>
    have hrest : 0 ≤ (rest.map fun c => portion c.2.weight weight).sum * f.width := by
      refine mul_nonneg (List.sum_nonneg fun p hp => ?_) hwidth
      obtain ⟨c, -, rfl⟩ := List.mem_map.mp hp
      exact portion_nonneg c.2.weight_nonneg hweight
    rw [row, List.forall_mem_cons, List.map_cons, List.sum_cons, add_mul, ← add_assoc]
    constructor
    · rintro ⟨hc, hall⟩
      exact (ih hc).mp hall
    · intro hle
      have hc : x + portion c.2.weight weight * f.width ≤ stop := (le_add_of_nonneg_right hrest).trans hle
      exact ⟨hc, (ih hc).mpr hle⟩

end

theorem sum_capped_le_one_iff {ratios : List ℚ} (hpos : ∀ r ∈ ratios, 0 < r) :
    (ratios.map (min · 1)).sum ≤ 1 ↔ ratios.length ≤ 1 ∨ ratios.sum ≤ 1 := by
  constructor
  · intro hsum
    refine or_iff_not_imp_left.mpr fun hlength => ?_
    have huncut : ∀ r ∈ ratios, min r 1 = r := by
      intro r hr
      obtain ⟨before, after, rfl⟩ := List.append_of_mem hr
      refine min_eq_left (not_lt.mp fun hlt => ?_)
      have hne : before ++ after ≠ [] := by
        rintro he
        obtain ⟨rfl, rfl⟩ := List.append_eq_nil_iff.mp he
        exact hlength (le_refl 1)
      have hothers : 0 < ((before ++ after).map (min · 1)).sum := by
        refine List.sum_pos _ (fun q hq => ?_) (by simpa using hne)
        obtain ⟨q', hq', rfl⟩ := List.mem_map.mp hq
        refine lt_min (hpos q' ?_) one_pos
        rcases List.mem_append.mp hq' with h | h
        · exact List.mem_append_left _ h
        · exact List.mem_append_right _ (List.mem_cons_of_mem _ h)
      simp only [List.map_append, List.sum_append, List.map_cons, List.sum_cons, min_eq_right hlt.le] at hsum hothers
      linarith
    rwa [List.map_congr_left huncut, List.map_id'] at hsum
  · rintro (hlength | hsum)
    · rcases ratios with _ | ⟨r, _ | ⟨r', rest⟩⟩
      · exact zero_le_one
      · simp
      · simp at hlength
    · refine le_trans (List.sum_le_sum fun r _ => ?_) (by rwa [List.map_id'])
      exact min_le_left _ _

theorem sum_portions_le_one_iff {weight : ℚ} (hweight : 0 < weight) {children : List (UInt64 × CommandTree ℚ)}
    (hpos : ∀ c ∈ children, 0 < portion c.2.weight weight) :
    (children.map fun c => portion c.2.weight weight).sum ≤ 1 ↔
      children.length ≤ 1 ∨ (children.map (·.2.weight)).sum ≤ weight := by
  have hratios : ∀ r ∈ children.map (·.2.weight / weight), 0 < r := by
    intro r hr
    obtain ⟨c, hc, rfl⟩ := List.mem_map.mp hr
    have hportion := hpos c hc
    rw [portion_exact] at hportion
    exact (lt_min_iff.mp hportion).1
  have hsum : (children.map (·.2.weight / weight)).sum = (children.map (·.2.weight)).sum / weight := by
    simp only [div_eq_mul_inv, List.sum_map_mul_right]
  have hcapped := sum_capped_le_one_iff hratios
  rw [List.map_map, List.length_map, hsum, div_le_one hweight] at hcapped
  simpa only [portion_exact, Function.comp_def] using hcapped

section

variable {tree node : CommandTree ℚ} {width : ℕ} {f g : Frame ℚ} (h : tree.Indexed) (hroot : tree.command = ⟨[]⟩)

theorem Visited.weight_eq (hnode : tree.Visited width f node) : f.weight = node.weight := by
  rw [hnode.eq_mk]
  rfl

include h

theorem eq_of_command_eq (hf : f ∈ tree.frames width) (hg : g ∈ tree.frames width) (he : f.command = g.command) :
    f = g :=
  List.inj_on_of_nodup_map (nodup_frames_commands h width) hf hg he

include hroot

theorem level_eq_zero_iff (hf : f ∈ tree.frames width) : f.level = 0 ↔ f.command = ⟨[]⟩ := by
  obtain ⟨-, node, hnode⟩ := mem_frames_iff.mp hf
  rw [(hnode.at?_command h hroot).2.1, CommandIndex.depth, List.length_eq_zero_iff]
  exact ⟨congrArg CommandIndex.mk, congrArg CommandIndex.parts⟩

theorem over_iff (hf : f ∈ tree.frames width) (hnode : tree.Visited width f node) :
    g ∈ tree.frames width ∧ g.Over f ↔
      0 < node.weight ∧ g ∈ row f node.weight f.x (byWeight node.children) ∧ g.Visible := by
  constructor
  · rintro ⟨hg, hlevel, hparent⟩
    obtain ⟨hvisible, node', hnode'⟩ := mem_frames_iff.mp hg
    have hne : g.command ≠ ⟨[]⟩ := fun he =>
      Nat.succ_ne_zero _ (hlevel.symm.trans ((level_eq_zero_iff h hroot hg).mpr he))
    obtain ⟨f', hf', parent', before, part, after, hparent', hweight, hsplit, hchild, hcommand⟩ :=
      hnode'.parent h hroot hne
    obtain rfl : f' = f := by
      apply eq_of_command_eq h hf' hf
      rw [← hparent, hcommand, CommandIndex.parent_child]
    obtain rfl : parent' = node := Option.some.inj <|
      (hparent'.at?_command h hroot).1.symm.trans (hnode.at?_command h hroot).1
    exact ⟨of_decide_eq_true hweight, mem_row.mpr ⟨before, part, node', after, hsplit, hchild⟩, hvisible⟩
  · rintro ⟨hweight, hg, hvisible⟩
    obtain ⟨before, part, child, after, hsplit, rfl⟩ := mem_row.mp hg
    have hsub := (hnode.at?_command h hroot).2.2
    have hchild := hnode.child (mem_frames_iff.mp hf).1 (decide_eq_true hweight) hsplit
    refine ⟨mem_frames_iff.mpr ⟨hvisible, child, hchild⟩, rfl, ?_⟩
    rw [(indexed_child hsub (get?_of_byWeight hsub hsplit)).1, CommandIndex.parent_child, hnode.command_eq]

theorem drawn_children (hf : f ∈ tree.frames width) (hnode : tree.Visited width f node) :
    ∃ drawn, drawn <+: byWeight node.children ∧ (drawn ≠ [] → 0 < node.weight) ∧
      (∀ g ∈ row f node.weight f.x drawn, g.Visible) ∧
      ((tree.frames width).filter (·.Over f)).Perm (row f node.weight f.x drawn) := by
  have hmem : ∀ g, g ∈ (tree.frames width).filter (·.Over f) ↔
      0 < node.weight ∧ g ∈ row f node.weight f.x (byWeight node.children) ∧ g.Visible := by
    intro g
    rw [List.mem_filter, decide_eq_true_eq, over_iff h hroot hf hnode]
  by_cases hweight : 0 < node.weight
  · have hwidth : 0 ≤ f.width := (mem_frames_iff.mp hf).1.width_pos.le
    obtain ⟨drawn, hdrawn, hfilter⟩ :=
      filter_visible_row hweight.le hwidth (byWeight_descending node.children) f.x
    have hseen : ∀ g ∈ row f node.weight f.x drawn, g.Visible := by
      intro g hg
      rw [← hfilter, List.mem_filter, decide_eq_true_eq] at hg
      exact hg.2
    refine ⟨drawn, hdrawn, fun _ => hweight, hseen, (List.perm_ext_iff_of_nodup ?_ ?_).mpr fun g => ?_⟩
    · exact ((nodup_frames_commands h width).of_map _).filter _
    · refine (row_apart hweight.le hwidth f.x drawn).imp_of_mem ?_
      rintro a b ha - hapart rfl
      exact absurd (hseen a ha).width_pos (by linarith)
    · rw [hmem, ← hfilter, List.mem_filter, decide_eq_true_eq, and_iff_right hweight]
  · refine ⟨[], List.nil_prefix, fun hne => absurd rfl hne, fun g hg => absurd hg List.not_mem_nil, ?_⟩
    rw [List.eq_nil_iff_forall_not_mem.mpr fun g hg => hweight ((hmem g).mp hg).1]
    exact List.Perm.nil

theorem bounds_of_over (hf : f ∈ tree.frames width) (hg : g ∈ tree.frames width) (hover : g.Over f) :
    f.x ≤ g.x ∧ g.width ≤ f.width := by
  obtain ⟨hvisible, node, hnode⟩ := mem_frames_iff.mp hf
  obtain ⟨hweight, hmem, -⟩ := (over_iff h hroot hf hnode).mp ⟨hg, hover⟩
  exact bounds_of_mem_row hweight.le hvisible.width_pos.le hmem

theorem apart_of_over {g' : Frame ℚ} (hf : f ∈ tree.frames width) (hg : g ∈ tree.frames width) (hover : g.Over f)
    (hg' : g' ∈ tree.frames width) (hover' : g'.Over f) (hne : g ≠ g') : (g.span ∩ g'.span).Subsingleton := by
  obtain ⟨hvisible, node, hnode⟩ := mem_frames_iff.mp hf
  obtain ⟨hweight, hmem, -⟩ := (over_iff h hroot hf hnode).mp ⟨hg, hover⟩
  obtain ⟨-, hmem', -⟩ := (over_iff h hroot hf hnode).mp ⟨hg', hover'⟩
  have hrow := (row_apart hweight.le hvisible.width_pos.le f.x (byWeight node.children)).imp
    fun hle => Frame.span_inter_of_le hle
  have : Std.Symm fun a b : Frame ℚ => (a.span ∩ b.span).Subsingleton := ⟨fun a b hab => by rwa [Set.inter_comm]⟩
  exact hrow.forall hmem hmem' hne

theorem within_iff (hf : f ∈ tree.frames width) :
    (∀ g ∈ tree.frames width, g.Over f → g.span ⊆ f.span) ↔
      ((tree.frames width).filter (·.Over f)).length ≤ 1 ∨
      (((tree.frames width).filter (·.Over f)).map Frame.weight).sum ≤ f.weight := by
  obtain ⟨hvisible, node, hnode⟩ := mem_frames_iff.mp hf
  obtain ⟨drawn, -, hpos, hseen, hperm⟩ := drawn_children h hroot hf hnode
  have hends : (∀ g ∈ tree.frames width, g.Over f → g.span ⊆ f.span) ↔
      ∀ g ∈ row f node.weight f.x drawn, g.x + g.width ≤ f.x + f.width := by
    constructor
    · intro hall g hg
      obtain ⟨hmem, hover⟩ := List.mem_filter.mp (hperm.mem_iff.mpr hg)
      have hsub := hall g hmem (of_decide_eq_true hover)
      exact ((Frame.span_subset_iff (hseen g hg).width_pos.le).mp hsub).2
    · intro hall g hg hover
      have hmem := hperm.mem_iff.mp (List.mem_filter.mpr ⟨hg, decide_eq_true hover⟩)
      exact (Frame.span_subset_iff (hseen g hmem).width_pos.le).mpr
        ⟨(bounds_of_over h hroot hf hg hover).1, hall g hmem⟩
  rw [hends, hperm.length_eq, (hperm.map _).sum_eq, length_row, map_weight_row, hnode.weight_eq]
  by_cases hnil : drawn = []
  · simp [hnil, row]
  have hweight := hpos hnil
  have hportions : ∀ c ∈ drawn, 0 < portion c.2.weight node.weight := by
    intro c hc
    obtain ⟨before, after, he⟩ := List.append_of_mem hc
    have hwide := (hseen _ (mem_row.mpr ⟨before, c.1, c.2, after, he, rfl⟩)).width_pos
    exact (mul_pos_iff_of_pos_right hvisible.width_pos).mp hwide
  calc (∀ g ∈ row f node.weight f.x drawn, g.x + g.width ≤ f.x + f.width)
      ↔ f.x + (drawn.map fun c => portion c.2.weight node.weight).sum * f.width ≤ f.x + f.width :=
        row_ends_iff hweight.le hvisible.width_pos.le (le_add_of_nonneg_right hvisible.width_pos.le)
    _ ↔ (drawn.map fun c => portion c.2.weight node.weight).sum ≤ 1 := by
        rw [add_le_add_iff_left, mul_le_iff_le_one_left hvisible.width_pos]
    _ ↔ drawn.length ≤ 1 ∨ (drawn.map (·.2.weight)).sum ≤ node.weight := sum_portions_le_one_iff hweight hportions

theorem within_of_sum_le (hf : f ∈ tree.frames width) (hnode : tree.Visited width f node)
    (hsum : (node.children.map (·.2.weight)).sum ≤ node.weight) :
    ∀ g ∈ tree.frames width, g.Over f → g.span ⊆ f.span := by
  obtain ⟨drawn, hdrawn, -, -, hperm⟩ := drawn_children h hroot hf hnode
  refine (within_iff h hroot hf).mpr (.inr ?_)
  rw [(hperm.map _).sum_eq, map_weight_row, hnode.weight_eq]
  calc (drawn.map (·.2.weight)).sum
      ≤ ((byWeight node.children).map (·.2.weight)).sum := by
        refine (hdrawn.sublist.map _).sum_le_sum fun w hw => ?_
        obtain ⟨c, -, rfl⟩ := List.mem_map.mp hw
        exact c.2.weight_nonneg
    _ = (node.children.map (·.2.weight)).sum := ((byWeight_perm node.children).map _).sum_eq
    _ ≤ node.weight := hsum

theorem exists_over (hg : g ∈ tree.frames width) (hne : g.command ≠ ⟨[]⟩) : ∃ f ∈ tree.frames width, g.Over f := by
  obtain ⟨-, node, hnode⟩ := mem_frames_iff.mp hg
  obtain ⟨f, hf, parent, before, part, after, -, -, -, hchild, hcommand⟩ := hnode.parent h hroot hne
  refine ⟨f, hf, ?_, ?_⟩
  · rw [hchild]
    rfl
  · rw [hcommand, CommandIndex.parent_child]

theorem root_frame (hf : f ∈ tree.frames width) (he : f.command = ⟨[]⟩) :
    tree.Visited width f tree ∧ f.span = Set.Icc 0 (width : ℚ) := by
  obtain ⟨-, node, hnode⟩ := mem_frames_iff.mp hf
  cases hnode with
  | root => exact ⟨.root, congrArg _ (zero_add _)⟩
  | child => exact absurd ((level_eq_zero_iff h hroot hf).mpr he) (Nat.succ_ne_zero _)

theorem within_page (hall : ∀ f ∈ tree.frames width, ∀ g ∈ tree.frames width, g.Over f → g.span ⊆ f.span)
    (hg : g ∈ tree.frames width) : g.span ⊆ Set.Icc 0 (width : ℚ) := by
  generalize hlevel : g.level = level
  induction level generalizing g with
  | zero => exact (root_frame h hroot hg ((level_eq_zero_iff h hroot hg).mp hlevel)).2.subset
  | succ level ih =>
    have hne : g.command ≠ ⟨[]⟩ := fun he =>
      Nat.succ_ne_zero _ (hlevel.symm.trans ((level_eq_zero_iff h hroot hg).mpr he))
    obtain ⟨f, hf, hover⟩ := exists_over h hroot hg hne
    exact (hall f hf g hg hover).trans (ih hf (Nat.succ.inj (hover.1.symm.trans hlevel)))

end

end CommandTree

end GpuProfile
