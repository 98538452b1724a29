import GpuProfile.Proofs.ListedAverages
import GpuProfile.Flamegraph.Svg

namespace GpuProfile

namespace Pairs

variable {κ ν : Type} [Ord κ] [Std.TransOrd κ]

theorem alter_alter (key : κ) (f g : Option ν → ν) (pairs : List (κ × ν)) :
    alter key f (alter key g pairs) = alter key (fun found => f (some (g found))) pairs := by
  induction pairs with
  | nil => simp [alter]
  | cons p rest ih =>
    obtain ⟨k, v⟩ := p
    cases h : compare key k <;> simp [alter, h, ih]

theorem alter_comm_of_lt {a b : κ} (h : compare a b = .lt) (f g : Option ν → ν) (pairs : List (κ × ν)) :
    alter a f (alter b g pairs) = alter b g (alter a f pairs) := by
  have hgt : compare b a = .gt := Std.OrientedCmp.gt_of_lt h
  induction pairs with
  | nil => simp [alter, h, hgt]
  | cons p rest ih =>
    obtain ⟨k, v⟩ := p
    cases hb : compare b k with
    | lt => simp [alter, h, hgt, hb, Std.TransCmp.lt_trans h hb]
    | eq => simp [alter, hgt, hb, Std.TransCmp.lt_of_lt_of_eq h hb]
    | gt => cases ha : compare a k <;> simp [alter, hgt, ha, hb, ih]

theorem alter_comm [Std.LawfulEqOrd κ] {a b : κ} (h : a ≠ b) (f g : Option ν → ν) (pairs : List (κ × ν)) :
    alter a f (alter b g pairs) = alter b g (alter a f pairs) := by
  cases hab : compare a b with
  | lt => exact alter_comm_of_lt hab f g pairs
  | eq => exact absurd (Std.LawfulEqCmp.eq_of_compare hab) h
  | gt => exact (alter_comm_of_lt (Std.OrientedCmp.lt_of_gt hab) g f pairs).symm

end Pairs

namespace CommandTree

variable {α : Type} [Quantity α]

theorem insert_comm {p q : List UInt64} (h : p ≠ q) (v w : Perf α) (tree : CommandTree α) :
    insert v p (insert w q tree) = insert w q (insert v p tree) := by
  induction p generalizing q tree with
  | nil =>
    obtain ⟨b, q, rfl⟩ := List.exists_cons_of_ne_nil h.symm
    cases tree
    rfl
  | cons a p ih =>
    cases tree with
    | node command perf children =>
      cases q with
      | nil => rfl
      | cons b q =>
        simp only [insert, node.injEq, true_and]
        by_cases hab : a = b
        · subst hab
          have hpq : p ≠ q := fun he => h (by rw [he])
          rw [Pairs.alter_alter, Pairs.alter_alter]
          congr 1
          funext found
          exact ih hpq _
        · exact Pairs.alter_comm hab _ _ children

theorem ofEntries_perm (metric : MetricId) {entries entries' : List (Entry α)}
    (hn : (entries.map (·.command)).Nodup) (h : entries.Perm entries') :
    ofEntries metric entries = ofEntries metric entries' := by
  rw [ofEntries, ofEntries]
  congr 1
  refine h.foldl_eq' (fun e he e' he' tree => ?_) _
  by_cases hc : e.command = e'.command
  · rw [List.inj_on_of_nodup_map hn he he' hc]
  · have hparts : e'.command.parts ≠ e.command.parts := fun hp => hc (congrArg CommandIndex.mk hp).symm
    cases e.values.get? metric <;> cases e'.values.get? metric <;> simp only []
    exact insert_comm hparts _ _ tree

end CommandTree

theorem placeOfBits_injective : Function.Injective placeOfBits := by
  intro a b h
  have ha := a.toNat_lt
  have hb := b.toNat_lt
  simp only [placeOfBits, UInt64.lt_iff_toNat_lt] at h
  apply UInt64.toNat_inj.mp
  split at h <;> split at h <;> simp_all <;> omega

-- Values that are no number lie outside the infinities, by their sign.
example : placeOfBits 0xfff8000000000000 < placeOfBits 0xfff0000000000000 ∧
    placeOfBits 0x7ff0000000000000 < placeOfBits 0x7ff8000000000000 := by decide

namespace Summary

variable {α : Type} [AsDouble α]

namespace Row

def order : Row α → Row α → Ordering :=
  compareLex (fun a b => compareOn (fun r => AsDouble.place r.perf.estimate) b a) (compareOn (·.command))

theorem before_eq (a b : Row α) : before a b = (order a b).isLE := rfl

instance : Std.TransCmp (order (α := α)) :=
  have : Std.TransCmp fun a b : Row α => compareOn (fun r => AsDouble.place r.perf.estimate) b a :=
    Std.TransCmp.opposite
  inferInstanceAs (Std.TransCmp (compareLex _ _))

theorem command_eq_of_before {a b : Row α} (hab : before a b) (hba : before b a) : a.command = b.command := by
  rw [before_eq] at hab hba
  have heq : order a b = .eq := Std.OrientedCmp.isLE_antisymm hab hba
  exact Std.LawfulEqCmp.eq_of_compare (Ordering.then_eq_eq.mp heq).2

end Row

theorem rows_perm {p p' : Profile α} (hn : (p.entries.map (·.command)).Nodup) (h : p.entries.Perm p'.entries)
    (metric : Metric) : rows p metric = rows p' metric := by
  have hrow : ∀ {r r' : Row α}, r ∈ rows p metric → r' ∈ rows p metric → r.command = r'.command → r = r' := by
    intro r r' hr hr' hcommand
    obtain ⟨e, he, hec, hv, -⟩ := mem_rows.mp hr
    obtain ⟨e', he', hec', hv', -⟩ := mem_rows.mp hr'
    have hentry : e = e' := List.inj_on_of_nodup_map hn he he' (hec.trans (hcommand.trans hec'.symm))
    subst hentry
    cases r
    cases r'
    simp_all
  have htrans : ∀ a b c : Row α, Row.before a b → Row.before b c → Row.before a c := fun a b c hab hbc => by
    rw [Row.before_eq] at *
    exact Std.TransCmp.isLE_trans hab hbc
  have htotal : ∀ a b : Row α, Row.before a b || Row.before b a := fun a b => by
    have hswap : Row.order a b = (Row.order b a).swap := Std.OrientedCmp.eq_swap
    rw [Row.before_eq, Row.before_eq, hswap]
    cases Row.order b a <;> rfl
  have hperm : (rows p metric).Perm (rows p' metric) := by
    refine (List.mergeSort_perm _ _).trans (.trans ?_ (List.mergeSort_perm _ _).symm)
    exact (h.filterMap _).filter _
  refine hperm.eq_of_pairwise (fun r r' hr hr' hab hba => ?_) (List.pairwise_mergeSort htrans htotal _)
    (List.pairwise_mergeSort htrans htotal _)
  exact hrow hr (hperm.symm.subset hr') (Row.command_eq_of_before hab hba)

end Summary

def SortedMap.map {κ ν μ : Type} [Ord κ] (f : ν → μ) (m : SortedMap κ ν) : SortedMap κ μ where
  toList := m.toList.map fun p => (p.1, f p.2)
  ascending := by
    rw [Pairs.Ascending, List.pairwise_map]
    exact m.ascending

namespace Profile

variable {α : Type}

def map {β : Type} (f : α → β) (p : Profile α) : Profile β :=
  ⟨p.metrics, p.entries.map fun e => ⟨e.command, e.values.map (·.map f)⟩⟩

theorem commands_map {β : Type} (f : α → β) (p : Profile α) :
    (p.map f).entries.map (·.command) = p.entries.map (·.command) := List.map_map

structure Reordered (p p' : Profile α) : Prop where
  metrics : p.metrics = p'.metrics
  entries : p.entries.Perm p'.entries

theorem Reordered.metric?_eq {p p' : Profile α} (h : p.Reordered p') (id : MetricId) : p.metric? id = p'.metric? id := by
  rw [metric?, h.metrics, metric?]

theorem Reordered.map {β : Type} {p p' : Profile α} (h : p.Reordered p') (f : α → β) :
    (p.map f).Reordered (p'.map f) := ⟨h.metrics, h.entries.map _⟩

theorem Reordered.flamegraph_eq {p p' : Profile Float} (h : p.Reordered p') (hn : (p.entries.map (·.command)).Nodup)
    (settings : Flamegraph.Settings) : Flamegraph.ofProfile settings p = Flamegraph.ofProfile settings p' := by
  rw [Flamegraph.ofProfile, Flamegraph.ofProfile, Flamegraph.additive?, Flamegraph.additive?, h.metric?_eq,
    CommandTree.ofEntries_perm settings.metric hn h.entries, h.entries.isEmpty_eq]

theorem pages_of_reordered [AsDouble α] {p p' : Profile α} (h : p.Reordered p')
    (hn : (p.entries.map (·.command)).Nodup) (settings : Flamegraph.Settings) (id : MetricId) (limit : ℕ) :
    Flamegraph.ofProfile settings (p.map AsDouble.value) = Flamegraph.ofProfile settings (p'.map AsDouble.value) ∧
      Summary.ofProfile p id limit = Summary.ofProfile p' id limit := by
  refine ⟨(h.map AsDouble.value).flamegraph_eq (p.commands_map AsDouble.value ▸ hn) settings, ?_⟩
  rw [Summary.ofProfile, Summary.ofProfile, h.metric?_eq]
  cases p'.metric? id with
  | none => rfl
  | some metric => simp only [Summary.rows_perm hn h.entries]

def Sparks.profile : Profile Double where
  metrics := [.gpuTime]
  entries := [⟨⟨[0, 1]⟩, .ofList [(0, .exact ⟨0x7ff8000000000000⟩)]⟩, ⟨⟨[2]⟩, .ofList [(0, .exact ⟨0x8000000000000000⟩)]⟩,
    ⟨⟨[1]⟩, .ofList [(0, .exact ⟨0⟩)]⟩, ⟨⟨[3]⟩, .ofList [(0, .exact ⟨0xfff8000000000000⟩)]⟩,
    ⟨⟨[0]⟩, .ofList [(0, .exact ⟨0x7ff0000000000000⟩)]⟩]

def Sparks.reversed : Profile Double := ⟨profile.metrics, profile.entries.reverse⟩

theorem sparks_pages : Sparks.profile.Reordered Sparks.reversed ∧
    (Sparks.profile.entries.map (·.command)).Nodup ∧
    Flamegraph.ofProfile .standard (Sparks.profile.map AsDouble.value) =
      Flamegraph.ofProfile .standard (Sparks.reversed.map AsDouble.value) ∧
    Summary.ofProfile Sparks.profile 0 3 = Summary.ofProfile Sparks.reversed 0 3 := by
  have hreordered : Sparks.profile.Reordered Sparks.reversed := ⟨rfl, (List.reverse_perm _).symm⟩
  have hn : (Sparks.profile.entries.map (·.command)).Nodup := by decide
  exact ⟨hreordered, hn, pages_of_reordered hreordered hn .standard 0 3⟩

end Profile

end GpuProfile
