import GpuProfile.Proofs.TreePaths
import GpuProfile.Flamegraph.Layout

namespace GpuProfile

def Frame.Visible {α : Type} [Quantity α] (f : Frame α) : Prop := Quantity.lt f.width Quantity.half = false

namespace CommandTree

variable {α : Type}

@[elab_as_elim]
theorem nodeInduction {motive : CommandTree α → Prop}
    (node : ∀ command perf children, (∀ c ∈ children, motive c.2) → motive (node command perf children)) :
    ∀ tree, motive tree
  | .node command perf children => node command perf children fun c _ => nodeInduction node c.2
termination_by tree => sizeOf tree
decreasing_by
  have hmem : c ∈ children := ‹_›
  have hlt := List.sizeOf_lt_of_mem hmem
  have hpair : sizeOf c = 1 + sizeOf c.1 + sizeOf c.2 := by cases c; rfl
  simp only [CommandTree.node.sizeOf_spec]
  omega

theorem indexed_child {tree child : CommandTree α} {part : UInt64} (h : tree.Indexed)
    (hget : Pairs.get? part tree.children = some child) :
    child.command = tree.command.child part ∧ child.Indexed := by
  cases tree
  exact (indexed_node_iff.mp h).2 part child hget

theorem at?_child {tree node : CommandTree α} {path : List UInt64} (h : tree.at? path = some node) (part : UInt64) :
    tree.at? (path ++ [part]) = Pairs.get? part node.children := by
  rw [at?_append, h, Option.bind_some]
  cases node
  exact Option.bind_fun_some _

variable [Quantity α]

theorem arrangeAll_eq_map (children : List (UInt64 × CommandTree α)) :
    arrangeAll children = children.map fun c => (c.1, c.2.arrange) := by
  induction children with
  | nil => rfl
  | cons c rest ih => rw [arrangeAll, ih, List.map_cons]

@[simp]
theorem weight_arrange (tree : CommandTree α) : tree.arrange.weight = tree.weight := by
  cases tree
  rfl

theorem arrange_node (command : CommandIndex) (perf : Perf α) (children : List (UInt64 × CommandTree α)) :
    arrange (node command perf children) =
      node command perf ((byWeight children).map fun c => (c.1, c.2.arrange)) := by
  rw [arrange, arrangeAll_eq_map, byWeight, byWeight, List.map_mergeSort]
  intro c _ c' _
  simp only [weight_arrange]

theorem byWeight_perm (children : List (UInt64 × CommandTree α)) : (byWeight children).Perm children :=
  List.mergeSort_perm _ _

def offset (x width weight : α) (before : List (UInt64 × CommandTree α)) : α :=
  before.foldl (fun x c => x + portion c.2.weight weight * width) x

def childFrame (f : Frame α) (weight : α) (before : List (UInt64 × CommandTree α)) (child : CommandTree α) : Frame α :=
  ⟨f.level + 1, child.command, child.perf, offset f.x f.width weight before, portion child.weight weight * f.width⟩

/-- The frames that a drawing comes to, those too narrow to be drawn among them, with their nodes. -/
inductive Visited (tree : CommandTree α) (width : ℕ) : Frame α → CommandTree α → Prop
  | root : Visited tree width ⟨0, tree.command, tree.perf, 0, Quantity.ofNat width⟩ tree
  | child {f : Frame α} {parent : CommandTree α} {before after : List (UInt64 × CommandTree α)} {part : UInt64}
      {node : CommandTree α} (hparent : Visited tree width f parent) (hvisible : f.Visible)
      (hweight : Quantity.lt 0 parent.weight) (hsplit : byWeight parent.children = before ++ (part, node) :: after) :
      Visited tree width (childFrame f parent.weight before node) node

omit [Quantity α] in
theorem exists_split_cons {c : UInt64 × CommandTree α} {rest : List (UInt64 × CommandTree α)}
    {motive : List (UInt64 × CommandTree α) → CommandTree α → Prop} :
    (∃ before part child after, c :: rest = before ++ (part, child) :: after ∧ motive before child) ↔
      motive [] c.2 ∨
        ∃ before part child after, rest = before ++ (part, child) :: after ∧ motive (c :: before) child := by
  constructor
  · rintro ⟨before, part, child, after, he, h⟩
    cases before with
    | nil =>
      obtain ⟨rfl, rfl⟩ := List.cons.inj he
      exact .inl h
    | cons c' before =>
      obtain ⟨rfl, rfl⟩ := List.cons.inj he
      exact .inr ⟨before, part, child, after, rfl, h⟩
  · rintro (h | ⟨before, part, child, after, rfl, h⟩)
    · exact ⟨[], c.1, c.2, rest, rfl, h⟩
    · exact ⟨c :: before, part, child, after, rfl, h⟩

theorem mem_placeAll_arrange {level : ℕ} {x width weight : α} {children : List (UInt64 × CommandTree α)}
    {g : Frame α} : g ∈ placeAll level x width weight (children.map fun c => (c.1, c.2.arrange)) ↔
      ∃ before part child after, children = before ++ (part, child) :: after ∧
        g ∈ place level (offset x width weight before) (portion child.weight weight * width) child.arrange := by
  induction children generalizing x with
  | nil => simp [placeAll]
  | cons c rest ih =>
    rw [List.map_cons, placeAll, List.mem_append, ih, weight_arrange, exists_split_cons]
    exact Iff.rfl

theorem mem_place_arrange {level : ℕ} {x width : α} {tree : CommandTree α} {g : Frame α} :
    g ∈ place level x width tree.arrange ↔ Quantity.lt width Quantity.half = false ∧
      (g = ⟨level, tree.command, tree.perf, x, width⟩ ∨ Quantity.lt 0 tree.weight ∧
        ∃ before part child after, byWeight tree.children = before ++ (part, child) :: after ∧
          g ∈ place (level + 1) (offset x width tree.weight before) (portion child.weight tree.weight * width)
            child.arrange) := by
  cases tree with
  | node command perf children =>
    rw [arrange_node, place]
    split
    · next hnarrow => simp [hnarrow]
    · next hwide =>
      rw [List.mem_cons]
      refine Iff.trans (or_congr_right ?_) (and_iff_right (Bool.eq_false_of_not_eq_true hwide)).symm
      rw [← mem_placeAll_arrange]
      by_cases hweight : Quantity.lt 0 (Quantity.atLeastZero perf.estimate)
      · simp only [hweight, if_true, true_and, CommandTree.weight, CommandTree.perf, CommandTree.children]
      · simp [hweight, CommandTree.weight, CommandTree.perf]

variable {tree : CommandTree α} {width : ℕ} {f g : Frame α} {node : CommandTree α}

theorem Visited.eq_mk (h : tree.Visited width f node) : f = ⟨f.level, node.command, node.perf, f.x, f.width⟩ := by
  cases h <;> rfl

theorem Visited.command_eq (h : tree.Visited width f node) : f.command = node.command := by
  cases h <;> rfl

theorem Visited.place_subset (h : tree.Visited width f node) (hg : g ∈ place f.level f.x f.width node.arrange) :
    g ∈ tree.frames width := by
  induction h with
  | root => exact hg
  | @child f parent before after part node _ hvisible hweight hsplit ih =>
    exact ih (mem_place_arrange.mpr ⟨hvisible, .inr ⟨hweight, before, part, node, after, hsplit, hg⟩⟩)

theorem visited_of_mem_place (h : tree.Visited width f node) (hg : g ∈ place f.level f.x f.width node.arrange) :
    g.Visible ∧ ∃ node', tree.Visited width g node' := by
  induction node using nodeInduction generalizing f with
  | node command perf children ih =>
    obtain ⟨hvisible, hself | ⟨hweight, before, part, child, after, hsplit, hg⟩⟩ := mem_place_arrange.mp hg
    · rw [hself, ← h.eq_mk]
      exact ⟨hvisible, _, h⟩
    · have hmem : (part, child) ∈ children :=
        (byWeight_perm children).subset (hsplit ▸ List.mem_append_right _ List.mem_cons_self)
      exact ih (part, child) hmem (h.child hvisible hweight hsplit) hg

theorem mem_frames_iff : f ∈ tree.frames width ↔ f.Visible ∧ ∃ node, tree.Visited width f node := by
  constructor
  · exact visited_of_mem_place .root
  · rintro ⟨hvisible, node, h⟩
    exact h.place_subset (mem_place_arrange.mpr ⟨hvisible, .inl h.eq_mk⟩)

theorem get?_of_byWeight {before after : List (UInt64 × CommandTree α)} {part : UInt64} {child : CommandTree α}
    (h : tree.Indexed) (hsplit : byWeight tree.children = before ++ (part, child) :: after) :
    Pairs.get? part tree.children = some child := by
  rw [Pairs.get?_eq_some_iff (h.ascending [] tree rfl)]
  exact (byWeight_perm _).subset (hsplit ▸ List.mem_append_right _ List.mem_cons_self)

theorem Visited.at?_eq (h : tree.Visited width f node) (hindexed : tree.Indexed) :
    ∃ path, tree.at? path = some node ∧ path.length = f.level ∧ node.Indexed ∧
      f.command = ⟨tree.command.parts ++ path⟩ := by
  induction h with
  | root => exact ⟨[], rfl, rfl, hindexed, by simp⟩
  | @child f parent before after part node hparent _ _ hsplit ih =>
    obtain ⟨path, hat, hlength, hsub, hcommand⟩ := ih
    have hget := get?_of_byWeight hsub hsplit
    obtain ⟨hchild, hnode⟩ := indexed_child hsub hget
    refine ⟨path ++ [part], ?_, by simp [childFrame, hlength], hnode, ?_⟩
    · rw [at?_child hat, hget]
    · rw [childFrame, hchild, ← hparent.command_eq, hcommand]
      simp [CommandIndex.child]

theorem prefix_of_mem_place (h : tree.Indexed) {level : ℕ} {x width : α} {g : Frame α}
    (hg : g ∈ place level x width tree.arrange) : tree.command.parts <+: g.command.parts := by
  induction tree using nodeInduction generalizing level x width with
  | node command perf children ih =>
    obtain ⟨-, rfl | ⟨-, before, part, child, after, hsplit, hg⟩⟩ := mem_place_arrange.mp hg
    · exact List.prefix_refl _
    · have hget := get?_of_byWeight h hsplit
      obtain ⟨hchild, hindexed⟩ := indexed_child h hget
      have hmem : (part, child) ∈ children := (Pairs.get?_eq_some_iff (h.ascending [] _ rfl)).mp hget
      have hprefix := ih (part, child) hmem hindexed hg
      rw [hchild] at hprefix
      exact (List.prefix_append _ _).trans hprefix

theorem part_eq_of_below {command : CommandIndex} {a b : UInt64} {parts : List UInt64}
    (ha : (command.child a).parts <+: parts) (hb : (command.child b).parts <+: parts) : a = b := by
  have hle : (command.child a).parts.length ≤ (command.child b).parts.length := by simp [CommandIndex.child]
  have heq := (List.prefix_of_prefix_length_le ha hb hle).eq_of_length (by simp [CommandIndex.child])
  simpa [CommandIndex.child] using heq

theorem nodup_parts (h : tree.Indexed) : ((byWeight tree.children).map (·.1)).Nodup := by
  have hkeys := (⟨tree.children, h.ascending [] tree rfl⟩ : SortedMap UInt64 (CommandTree α)).nodup_keys
  exact (((byWeight_perm _).map _).nodup_iff).mpr hkeys

theorem below_of_mem_placeAll {children : List (UInt64 × CommandTree α)} {command : CommandIndex}
    (h : ∀ c ∈ children, c.2.command = command.child c.1 ∧ c.2.Indexed) {level : ℕ} {x width weight : α}
    (hg : g ∈ placeAll level x width weight (children.map fun c => (c.1, c.2.arrange))) :
    ∃ c ∈ children, (command.child c.1).parts <+: g.command.parts := by
  obtain ⟨before, part, child, after, hsplit, hplace⟩ := mem_placeAll_arrange.mp hg
  have hmem : (part, child) ∈ children := hsplit ▸ List.mem_append_right _ List.mem_cons_self
  obtain ⟨hcommand, hindexed⟩ := h _ hmem
  have hprefix := prefix_of_mem_place hindexed hplace
  rw [hcommand] at hprefix
  exact ⟨_, hmem, hprefix⟩

theorem nodup_placeAll {children : List (UInt64 × CommandTree α)} {command : CommandIndex}
    (hparts : (children.map (·.1)).Nodup) (h : ∀ c ∈ children, c.2.command = command.child c.1 ∧ c.2.Indexed)
    (hplace : ∀ c ∈ children, ∀ level (x width : α), ((place level x width c.2.arrange).map (·.command)).Nodup)
    (level : ℕ) (x width weight : α) :
    ((placeAll level x width weight (children.map fun c => (c.1, c.2.arrange))).map (·.command)).Nodup := by
  induction children generalizing x with
  | nil => exact List.nodup_nil
  | cons c rest ih =>
    obtain ⟨hc, hrest⟩ := List.forall_mem_cons.mp h
    obtain ⟨hplacec, hplacerest⟩ := List.forall_mem_cons.mp hplace
    obtain ⟨hnot, hnodup⟩ := List.nodup_cons.mp hparts
    rw [List.map_cons, placeAll, List.map_append, List.nodup_append']
    refine ⟨hplacec _ _ _, ih hnodup hrest hplacerest _, ?_⟩
    rw [List.disjoint_left]
    intro command' hfirst hlater
    obtain ⟨g, hg, rfl⟩ := List.mem_map.mp hfirst
    obtain ⟨g', hg', he⟩ := List.mem_map.mp hlater
    obtain ⟨c', hc', hbelow⟩ := below_of_mem_placeAll hrest hg'
    have hprefix := prefix_of_mem_place hc.2 hg
    rw [hc.1, ← he] at hprefix
    exact hnot (List.mem_map.mpr ⟨c', hc', (part_eq_of_below hprefix hbelow).symm⟩)

theorem indexed_of_mem_byWeight (h : tree.Indexed) :
    ∀ c ∈ byWeight tree.children, c.2.command = tree.command.child c.1 ∧ c.2.Indexed := fun _ hc =>
  indexed_child h ((Pairs.get?_eq_some_iff (h.ascending [] tree rfl)).mpr ((byWeight_perm _).subset hc))

theorem nodup_place (h : tree.Indexed) (level : ℕ) (x width : α) :
    ((place level x width tree.arrange).map (·.command)).Nodup := by
  induction tree using nodeInduction generalizing level x width with
  | node command perf children ih =>
    have hchildren := indexed_of_mem_byWeight h
    rw [arrange_node, place]
    split
    · exact List.nodup_nil
    rw [List.map_cons, List.nodup_cons]
    split
    · constructor
      · intro hmem
        obtain ⟨g, hg, he⟩ := List.mem_map.mp hmem
        obtain ⟨c, -, hbelow⟩ := below_of_mem_placeAll hchildren hg
        have hlonger := hbelow.length_le
        rw [he] at hlonger
        simp [CommandIndex.child, CommandTree.command] at hlonger
      · refine nodup_placeAll (nodup_parts h) hchildren (fun c hc => ?_) _ _ _ _
        exact ih c ((byWeight_perm children).subset hc) (hchildren c hc).2
    · exact ⟨List.not_mem_nil, List.nodup_nil⟩

theorem nodup_frames_commands (h : tree.Indexed) (width : ℕ) : ((tree.frames width).map (·.command)).Nodup :=
  nodup_place h _ _ _

theorem Visited.at?_command (h : tree.Visited width f node) (hindexed : tree.Indexed) (hroot : tree.command = ⟨[]⟩) :
    tree.at? f.command.parts = some node ∧ f.level = f.command.depth ∧ node.Indexed := by
  obtain ⟨path, hat, hlength, hnode, hcommand⟩ := h.at?_eq hindexed
  rw [hroot, List.nil_append] at hcommand
  rw [hcommand]
  exact ⟨hat, hlength.symm, hnode⟩

theorem Visited.level_le (h : tree.Visited width f node) (hindexed : tree.Indexed) : f.level ≤ tree.height := by
  obtain ⟨path, hat, hlength, -⟩ := h.at?_eq hindexed
  have hle := length_add_height_le hindexed hat
  omega

theorem Visited.parent (h : tree.Visited width g node) (hindexed : tree.Indexed) (hroot : tree.command = ⟨[]⟩)
    (hne : g.command ≠ ⟨[]⟩) : ∃ f ∈ tree.frames width, ∃ parent before part after, tree.Visited width f parent ∧
      Quantity.lt 0 parent.weight ∧ byWeight parent.children = before ++ (part, node) :: after ∧
      g = childFrame f parent.weight before node ∧ g.command = f.command.child part := by
  cases h with
  | root => exact absurd hroot hne
  | @child f parent before after part node hparent hvisible hweight hsplit =>
    have hsub := (hparent.at?_command hindexed hroot).2.2
    obtain ⟨hchild, -⟩ := indexed_child hsub (get?_of_byWeight hsub hsplit)
    refine ⟨f, mem_frames_iff.mpr ⟨hvisible, parent, hparent⟩, parent, before, part, after, hparent, hweight, hsplit,
      rfl, ?_⟩
    rw [hparent.command_eq]
    exact hchild

end CommandTree

end GpuProfile
