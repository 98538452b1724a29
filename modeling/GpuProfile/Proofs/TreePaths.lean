import GpuProfile.Proofs.SortedMapLaws
import GpuProfile.Flamegraph.Tree
import GpuProfile.Quantity.Exact

/-!
The command tree as a function of paths. A path leads to a node just when it begins the command of an entry
with a value, and it finds the last value of that command there.
-/

namespace GpuProfile

theorem Pairs.get?_alter {κ ν : Type} [Ord κ] [Std.TransOrd κ] [Std.LawfulEqOrd κ] [DecidableEq κ] (key other : κ)
    (f : Option ν → ν) {pairs : List (κ × ν)} (h : Ascending pairs) :
    get? other (alter key f pairs) = if other = key then some (f (get? key pairs)) else get? other pairs := by
  split
  · next he => rw [he, get?_alter_self key f h]
  · next hne => exact get?_alter_of_ne f pairs hne

theorem Pairs.alter_congr {κ ν : Type} [Ord κ] [Std.LawfulEqOrd κ] {key : κ} {f g : Option ν → ν}
    {pairs : List (κ × ν)} (hnone : f none = g none) (hsome : ∀ v, (key, v) ∈ pairs → f (some v) = g (some v)) :
    alter key f pairs = alter key g pairs := by
  induction pairs with
  | nil => rw [alter, alter, hnone]
  | cons p rest ih =>
    obtain ⟨k, v⟩ := p
    rw [alter, alter]
    split
    · rw [hnone]
    · next he =>
      have hkey : key = k := Std.LawfulEqCmp.eq_of_compare he
      rw [hsome v (hkey ▸ List.mem_cons_self)]
    · rw [ih fun w hw => hsome w (List.mem_cons_of_mem _ hw)]

namespace CommandTree

variable {α : Type}

def at? : List UInt64 → CommandTree α → Option (CommandTree α)
  | [], tree => some tree
  | part :: path, node _ _ children => (Pairs.get? part children).bind (at? path)

@[simp]
theorem at?_nil (tree : CommandTree α) : tree.at? [] = some tree := rfl

@[simp]
theorem at?_cons (part : UInt64) (path : List UInt64) (command : CommandIndex) (perf : Perf α)
    (children : List (UInt64 × CommandTree α)) :
    (node command perf children).at? (part :: path) = (Pairs.get? part children).bind (·.at? path) := rfl

theorem at?_append (path path' : List UInt64) (tree : CommandTree α) :
    tree.at? (path ++ path') = (tree.at? path).bind (·.at? path') := by
  induction path generalizing tree with
  | nil => rfl
  | cons part path ih =>
    cases tree with
    | node command perf children =>
      rw [List.cons_append, at?_cons, at?_cons, Option.bind_assoc]
      congr 1
      funext child
      exact ih child

structure Indexed (tree : CommandTree α) : Prop where
  command : ∀ path found, tree.at? path = some found → found.command = ⟨tree.command.parts ++ path⟩
  ascending : ∀ path found, tree.at? path = some found → Pairs.Ascending found.children

theorem indexed_node_iff {command : CommandIndex} {perf : Perf α} {children : List (UInt64 × CommandTree α)} :
    (node command perf children).Indexed ↔ Pairs.Ascending children ∧
      ∀ part child, Pairs.get? part children = some child → child.command = command.child part ∧ child.Indexed := by
  constructor
  · intro h
    refine ⟨h.ascending [] _ rfl, fun part child hget => ?_⟩
    have hpath : ∀ path, (node command perf children).at? (part :: path) = child.at? path := by
      intro path
      rw [at?_cons, hget, Option.bind_some]
    have hchild : child.command = command.child part := h.command [part] child (hpath [])
    refine ⟨hchild, fun path found hfound => ?_, fun path found hfound => ?_⟩
    · rw [h.command (part :: path) found ((hpath path).trans hfound), hchild]
      simp [CommandTree.command, CommandIndex.child]
    · exact h.ascending (part :: path) found ((hpath path).trans hfound)
  · rintro ⟨hascending, hchildren⟩
    constructor
    · intro path found hfound
      cases path with
      | nil =>
        cases hfound
        simp [CommandTree.command]
      | cons part path =>
        obtain ⟨child, hget, hat⟩ := Option.bind_eq_some_iff.mp hfound
        obtain ⟨hchild, hindexed⟩ := hchildren part child hget
        rw [hindexed.command path found hat, hchild]
        simp [CommandTree.command, CommandIndex.child]
    · intro path found hfound
      cases path with
      | nil =>
        cases hfound
        exact hascending
      | cons part path =>
        obtain ⟨child, hget, hat⟩ := Option.bind_eq_some_iff.mp hfound
        exact (hchildren part child hget).2.ascending path found hat

theorem height_lt_of_mem {part : UInt64} {child : CommandTree α} (command : CommandIndex) (perf : Perf α)
    {children : List (UInt64 × CommandTree α)} (h : (part, child) ∈ children) :
    child.height < (node command perf children).height := by
  rw [height]
  induction children with
  | nil => cases h
  | cons c rest ih =>
    obtain ⟨part', tree⟩ := c
    rw [heightAll]
    rcases List.mem_cons.mp h with he | hm
    · cases he
      omega
    · have := ih hm
      omega

theorem length_add_height_le {tree : CommandTree α} (h : tree.Indexed) {path : List UInt64} {found : CommandTree α}
    (hfound : tree.at? path = some found) : path.length + found.height ≤ tree.height := by
  induction path generalizing tree with
  | nil =>
    cases hfound
    simp
  | cons part path ih =>
    cases tree with
    | node command perf children =>
      obtain ⟨hascending, hchildren⟩ := indexed_node_iff.mp h
      obtain ⟨child, hget, hat⟩ := Option.bind_eq_some_iff.mp hfound
      have hlt := height_lt_of_mem command perf ((Pairs.get?_eq_some_iff hascending).mp hget)
      have hle := ih (hchildren part child hget).2 hat
      rw [List.length_cons]
      omega

theorem heightAll_alter {part : UInt64} {f : Option (CommandTree α) → CommandTree α} {n : ℕ}
    (hnone : (f none).height = n) (hsome : ∀ child, (f (some child)).height = max child.height n)
    (children : List (UInt64 × CommandTree α)) :
    heightAll (Pairs.alter part f children) = max (heightAll children) (n + 1) := by
  induction children with
  | nil => simp [Pairs.alter, heightAll, hnone]
  | cons c rest ih =>
    obtain ⟨k, tree⟩ := c
    rw [Pairs.alter]
    split
    · rw [heightAll, hnone]
      omega
    · rw [heightAll, heightAll, hsome]
      omega
    · rw [heightAll, ih, heightAll]
      omega

def valued (metric : MetricId) (entries : List (Entry α)) : List (CommandIndex × Perf α) :=
  entries.filterMap fun e => (e.values.get? metric).map (e.command, ·)

theorem exists_mem_valued {metric : MetricId} {entries : List (Entry α)} {path : List UInt64} :
    (∃ v ∈ valued metric entries, path <+: v.1.parts) ↔
      ∃ e ∈ entries, e.values.contains metric ∧ path <+: e.command.parts := by
  simp only [valued, List.mem_filterMap, Option.map_eq_some_iff, SortedMap.contains, Option.isSome_iff_exists]
  constructor
  · rintro ⟨-, ⟨e, he, value, hvalue, rfl⟩, hprefix⟩
    exact ⟨e, he, ⟨value, hvalue⟩, hprefix⟩
  · rintro ⟨e, he, ⟨value, hvalue⟩, hprefix⟩
    exact ⟨_, ⟨e, he, value, hvalue, rfl⟩, hprefix⟩

theorem map_depth_valued (metric : MetricId) (entries : List (Entry α)) : (valued metric entries).map (·.1.depth) =
    (entries.filter (·.values.contains metric)).map (·.command.depth) := by
  induction entries with
  | nil => rfl
  | cons e rest ih =>
    rw [valued] at ih ⊢
    cases hvalue : e.values.get? metric <;> simp [SortedMap.contains, hvalue, ih]

variable [Quantity α]

theorem indexed_leaf (command : CommandIndex) : (leaf command : CommandTree α).Indexed :=
  indexed_node_iff.mpr ⟨List.Pairwise.nil, fun _ _ h => by simp [Pairs.get?] at h⟩

@[simp]
theorem command_insert (value : Perf α) (path : List UInt64) (tree : CommandTree α) :
    (insert value path tree).command = tree.command := by
  cases tree
  cases path <;> rfl

theorem indexed_getD {command : CommandIndex} {perf : Perf α} {children : List (UInt64 × CommandTree α)}
    (h : (node command perf children).Indexed) (part : UInt64) :
    ((Pairs.get? part children).getD (leaf (command.child part))).command = command.child part ∧
      ((Pairs.get? part children).getD (leaf (command.child part))).Indexed := by
  cases hget : Pairs.get? part children with
  | none => exact ⟨rfl, indexed_leaf _⟩
  | some child => exact (indexed_node_iff.mp h).2 part child hget

theorem indexed_insert (value : Perf α) (path : List UInt64) {tree : CommandTree α} (h : tree.Indexed) :
    (insert value path tree).Indexed := by
  induction path generalizing tree with
  | nil =>
    cases tree
    exact indexed_node_iff.mpr (indexed_node_iff.mp h)
  | cons part path ih =>
    cases tree with
    | node command perf children =>
      obtain ⟨hascending, hchildren⟩ := indexed_node_iff.mp h
      refine indexed_node_iff.mpr ⟨Pairs.ascending_alter _ _ hascending, fun k child hget => ?_⟩
      rw [Pairs.get?_alter _ _ _ hascending] at hget
      split at hget
      · next he =>
        cases hget
        obtain ⟨hchild, hindexed⟩ := indexed_getD h part
        rw [command_insert, he]
        exact ⟨hchild, ih hindexed⟩
      · exact hchildren k child hget

theorem perf_at?_leaf (command : CommandIndex) (path : List UInt64) :
    ((leaf command : CommandTree α).at? path).map (·.perf) = if path = [] then some (.exact 0) else none := by
  cases path <;> rfl

-- Below a missing child there is nothing, as below a new one.
theorem getD_perf_at?_getD (found : Option (CommandTree α)) (command : CommandIndex) (path : List UInt64) :
    (((found.getD (leaf command)).at? path).map (·.perf)).getD (.exact 0) =
      (((found.bind (·.at? path)).map (·.perf)).getD (.exact 0)) := by
  cases found with
  | none =>
    rw [Option.getD_none, perf_at?_leaf]
    split <;> rfl
  | some child => rfl

theorem perf_at?_insert (value : Perf α) (path other : List UInt64) {tree : CommandTree α} (h : tree.Indexed) :
    ((insert value path tree).at? other).map (·.perf) =
      if other = path then some value
      else if other <+: path then some (((tree.at? other).map (·.perf)).getD (.exact 0))
      else (tree.at? other).map (·.perf) := by
  induction path generalizing other tree with
  | nil => cases tree; cases other <;> simp [insert, perf]
  | cons part path ih =>
    cases tree with
    | node command perf children =>
      cases other with
      | nil => simp [insert, CommandTree.perf]
      | cons k other =>
        have hascending := (indexed_node_iff.mp h).1
        rw [insert, at?_cons, at?_cons, Pairs.get?_alter _ _ _ hascending]
        by_cases hk : k = part
        · subst hk
          rw [if_pos rfl, Option.bind_some, ih _ (indexed_getD h k).2, getD_perf_at?_getD]
          simp only [List.cons.injEq, true_and, List.cons_prefix_cons]
          split
          · rfl
          split
          · rfl
          · next hprefix =>
            have hne : other ≠ [] := fun he => hprefix (he ▸ List.nil_prefix)
            cases Pairs.get? k children with
            | none => rw [Option.getD_none, perf_at?_leaf, if_neg hne]; rfl
            | some child => rfl
        · simp [hk]

theorem height_insert (value : Perf α) (path : List UInt64) (tree : CommandTree α) :
    (insert value path tree).height = max tree.height path.length := by
  induction path generalizing tree with
  | nil => cases tree; simp [insert, height]
  | cons part path ih =>
    cases tree with
    | node command perf children =>
      rw [insert, height, height, List.length_cons]
      apply heightAll_alter
      · rw [Option.getD_none, ih]
        simp [leaf, height, heightAll]
      · exact fun child => ih child

def grow (values : List (CommandIndex × Perf α)) : CommandTree α :=
  values.foldl (fun tree v => tree.insert v.2 v.1.parts) (leaf ⟨[]⟩)

theorem grow_concat (values : List (CommandIndex × Perf α)) (v : CommandIndex × Perf α) :
    grow (values ++ [v]) = (grow values).insert v.2 v.1.parts := by
  rw [grow, List.foldl_append]
  rfl

theorem indexed_grow (values : List (CommandIndex × Perf α)) : (grow values).Indexed ∧ (grow values).command = ⟨[]⟩ := by
  induction values using List.reverseRecOn with
  | nil => exact ⟨indexed_leaf _, rfl⟩
  | append_singleton values v ih =>
    rw [grow_concat, command_insert]
    exact ⟨indexed_insert _ _ ih.1, ih.2⟩

def lastValue (values : List (CommandIndex × Perf α)) (path : List UInt64) : Perf α :=
  (((values.filter (·.1 = ⟨path⟩)).map (·.2)).getLast?).getD (.exact 0)

theorem lastValue_concat (values : List (CommandIndex × Perf α)) (v : CommandIndex × Perf α) (path : List UInt64) :
    lastValue (values ++ [v]) path = if path = v.1.parts then v.2 else lastValue values path := by
  obtain ⟨⟨parts⟩, value⟩ := v
  by_cases he : parts = path
  · simp [lastValue, he]
  · simp [lastValue, he, Ne.symm he]

theorem lastValue_of_forall {values : List (CommandIndex × Perf α)} {path : List UInt64}
    (h : ∀ v ∈ values, ¬path <+: v.1.parts) : lastValue values path = .exact 0 := by
  have hnil : values.filter (·.1 = ⟨path⟩) = [] := by
    rw [List.filter_eq_nil_iff]
    intro v hv he
    apply h v hv
    rw [of_decide_eq_true he]
  rw [lastValue, hnil]
  rfl

theorem perf_at?_grow (values : List (CommandIndex × Perf α)) (path : List UInt64) :
    ((grow values).at? path).map (·.perf) =
      if path = [] ∨ ∃ v ∈ values, path <+: v.1.parts then some (lastValue values path) else none := by
  induction values using List.reverseRecOn with
  | nil =>
    have hleaf := @perf_at?_leaf α _ ⟨[]⟩ path
    simpa [grow, lastValue] using hleaf
  | append_singleton values v ih =>
    rw [grow_concat, perf_at?_insert _ _ _ (indexed_grow values).1, ih, lastValue_concat]
    simp only [List.mem_append, List.mem_singleton, or_and_right, exists_or, exists_eq_left, ← or_assoc]
    by_cases hself : path = v.1.parts
    · simp [hself]
    · by_cases hprefix : path <+: v.1.parts
      · simp only [hself, hprefix, if_true, if_false, or_true]
        split
        · rfl
        · next hno =>
          rw [not_or, not_exists] at hno
          rw [lastValue_of_forall fun v' hv' hp => hno.2 v' ⟨hv', hp⟩]
          rfl
      · simp only [hself, hprefix, if_false, or_false]

theorem height_grow (values : List (CommandIndex × Perf α)) :
    (grow values).height = (values.map (·.1.depth)).foldl max 0 := by
  induction values using List.reverseRecOn with
  | nil => rfl
  | append_singleton values v ih =>
    rw [grow_concat, height_insert, ih, List.map_append, List.foldl_append]
    rfl

theorem ofEntries_eq (metric : MetricId) (entries : List (Entry α)) :
    ofEntries metric entries = total (grow (valued metric entries)) := by
  rw [ofEntries, grow, valued, List.foldl_filterMap]
  congr 2
  funext tree e
  cases e.values.get? metric <;> rfl

theorem lastValue_valued (metric : MetricId) (entries : List (Entry α)) (path : List UInt64) :
    lastValue (valued metric entries) path =
      (((entries.filter (·.command = ⟨path⟩)).filterMap (·.values.get? metric)).getLast?).getD (.exact 0) := by
  have hvalues : ((valued metric entries).filter (·.1 = ⟨path⟩)).map (·.2) =
      (entries.filter (·.command = ⟨path⟩)).filterMap (·.values.get? metric) := by
    induction entries with
    | nil => rfl
    | cons e rest ih =>
      rw [valued] at ih ⊢
      cases hvalue : e.values.get? metric <;> by_cases hpath : e.command = ⟨path⟩ <;> simp [hvalue, hpath, ih]
  rw [lastValue, hvalues]

theorem at?_total (tree : CommandTree α) (part : UInt64) (path : List UInt64) :
    (total tree).at? (part :: path) = tree.at? (part :: path) := by
  cases tree
  rfl

theorem indexed_total {tree : CommandTree α} (h : tree.Indexed) : (total tree).Indexed := by
  cases tree
  exact indexed_node_iff.mpr (indexed_node_iff.mp h)

theorem height_total (tree : CommandTree α) : (total tree).height = tree.height := by
  cases tree
  rfl

theorem indexed_ofEntries (metric : MetricId) (entries : List (Entry α)) :
    (ofEntries metric entries).Indexed ∧ (ofEntries metric entries).command = ⟨[]⟩ := by
  obtain ⟨hindexed, hcommand⟩ := indexed_grow (valued metric entries)
  rw [ofEntries_eq]
  refine ⟨indexed_total hindexed, ?_⟩
  rw [← hcommand]
  cases grow (valued metric entries)
  rfl

theorem perf_at?_ofEntries (metric : MetricId) (entries : List (Entry α)) {path : List UInt64} (hne : path ≠ []) :
    ((ofEntries metric entries).at? path).map (·.perf) =
      if ∃ e ∈ entries, e.values.contains metric ∧ path <+: e.command.parts then
        some ((((entries.filter (·.command = ⟨path⟩)).filterMap (·.values.get? metric)).getLast?).getD (.exact 0))
      else none := by
  obtain ⟨part, rest, rfl⟩ := List.exists_cons_of_ne_nil hne
  rw [ofEntries_eq, at?_total, perf_at?_grow, lastValue_valued]
  simp only [exists_mem_valued, reduceCtorEq, false_or]

/-- The same insertion with new nodes labelled by what the path has in common with the command of the value. -/
def insertAs (command : CommandIndex) (value : Perf α) : List UInt64 → CommandTree α → CommandTree α
  | [], node label _ children => node label value children
  | part :: path, node label perf children =>
    node label perf <| Pairs.alter part
      (fun found => insertAs command value path
        (found.getD (leaf ⟨command.parts.take (command.depth - path.length)⟩))) children

theorem insertAs_eq_insert {command : CommandIndex} (value : Perf α) {path : List UInt64} {tree : CommandTree α}
    (h : tree.Indexed) (hpath : command.parts = tree.command.parts ++ path) :
    insertAs command value path tree = insert value path tree := by
  induction path generalizing tree with
  | nil => cases tree; rfl
  | cons part path ih =>
    cases tree with
    | node label perf children =>
      obtain ⟨hascending, hchildren⟩ := indexed_node_iff.mp h
      have hlabel : command.parts = (label.child part).parts ++ path := by
        rw [hpath]
        simp [CommandTree.command, CommandIndex.child]
      have hleaf : (⟨command.parts.take (command.depth - path.length)⟩ : CommandIndex) = label.child part := by
        simp [CommandIndex.depth, hlabel]
      rw [insertAs, insert, hleaf]
      congr 1
      refine Pairs.alter_congr (ih (indexed_leaf _) hlabel) fun child hmem => ?_
      obtain ⟨hchild, hindexed⟩ := hchildren part child ((Pairs.get?_eq_some_iff hascending).mpr hmem)
      exact ih hindexed (hchild ▸ hlabel)

theorem grow_eq_insertAs (values : List (CommandIndex × Perf α)) :
    grow values = values.foldl (fun tree v => insertAs v.1 v.2 v.1.parts tree) (leaf ⟨[]⟩) := by
  induction values using List.reverseRecOn with
  | nil => rfl
  | append_singleton values v ih =>
    obtain ⟨hindexed, hcommand⟩ := indexed_grow values
    rw [grow_concat, List.foldl_append, ← ih]
    exact (insertAs_eq_insert v.2 hindexed (by rw [hcommand, List.nil_append])).symm

/-- A path leads to a node just when it is empty or begins the command of an entry with a value, and the node has the
index of its path. Its value is the last one of that command, or zero; the root has the sum of what its children ask
for. The tree is as high as the longest of the commands, and labels cut from them are the same. -/
theorem tree_by_paths (metric : MetricId) (entries : List (Entry α)) :
    (∀ path, ((ofEntries metric entries).at? path).isSome ↔
      path = [] ∨ ∃ e ∈ entries, e.values.contains metric ∧ path <+: e.command.parts) ∧
    (∀ path found, (ofEntries metric entries).at? path = some found →
      found.command = ⟨path⟩ ∧ Pairs.Ascending found.children ∧ (path ≠ [] → found.perf =
        (((entries.filter (·.command = ⟨path⟩)).filterMap (·.values.get? metric)).getLast?).getD (.exact 0))) ∧
    (∀ f ∈ [Perf.estimate, Perf.min, Perf.max], f (ofEntries metric entries).perf =
      Quantity.sum ((ofEntries metric entries).children.map fun c => Quantity.atLeastZero c.2.perf.estimate)) ∧
    (ofEntries metric entries).height =
      ((entries.filter (·.values.contains metric)).map (·.command.depth)).foldl max 0 ∧
    ofEntries metric entries =
      total ((valued metric entries).foldl (fun tree v => insertAs v.1 v.2 v.1.parts tree) (leaf ⟨[]⟩)) := by
  obtain ⟨hindexed, hcommand⟩ := indexed_ofEntries metric entries
  refine ⟨fun path => ?_, fun path found hfound => ⟨?_, hindexed.ascending path found hfound, fun hne => ?_⟩, ?_, ?_, ?_⟩
  · by_cases hne : path = []
    · simp [hne]
    · have hsome := congrArg Option.isSome (perf_at?_ofEntries metric entries hne)
      rw [Option.isSome_map] at hsome
      simp [hsome, hne]
  · rw [hindexed.command path found hfound, hcommand, List.nil_append]
  · have hperf := perf_at?_ofEntries metric entries hne
    rw [hfound, Option.map_some] at hperf
    exact (Option.some.inj (Option.ite_none_right_eq_some.mp hperf.symm).2).symm
  · rw [ofEntries_eq]
    cases grow (valued metric entries)
    simp [total, CommandTree.perf, CommandTree.children, Perf.exact, weight]
  · rw [ofEntries_eq, height_total, height_grow, map_depth_valued]
  · rw [ofEntries_eq, grow_eq_insertAs]

example : let tree := ofEntries 0 [⟨⟨[0, 1]⟩, .ofList [(0, .exact 3)]⟩, ⟨⟨[]⟩, .ofList [(0, .exact 5)]⟩,
      ⟨⟨[0, 1]⟩, .ofList [(0, .exact (4 : ℚ))]⟩]
    (tree.at? [0]).map perf = some (.exact 0) ∧ (tree.at? [0, 1]).map perf = some (.exact 4) ∧
      tree.perf = .exact 0 ∧ tree.height = 2 := by decide +kernel

end CommandTree

end GpuProfile
