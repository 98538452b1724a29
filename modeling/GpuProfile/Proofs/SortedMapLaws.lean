import Mathlib
import GpuProfile.SortedMap

namespace GpuProfile

variable {κ ν μ : Type} [Ord κ] [Std.LawfulEqOrd κ]

namespace Pairs

theorem nodup_keys {pairs : List (κ × ν)} (h : Ascending pairs) : (pairs.map (·.1)).Nodup := by
  rw [List.Nodup, List.pairwise_map]
  refine h.imp fun {p q} hlt he => ?_
  simp [he, Std.ReflCmp.compare_self] at hlt

theorem get?_eq_some_iff_of_nodup {key : κ} {value : ν} {pairs : List (κ × ν)} (h : (pairs.map (·.1)).Nodup) :
    get? key pairs = some value ↔ (key, value) ∈ pairs := by
  induction pairs with
  | nil => simp [get?]
  | cons p rest ih =>
    obtain ⟨k, v⟩ := p
    obtain ⟨hk, hrest⟩ := List.nodup_cons.mp h
    by_cases he : compare key k = .eq
    · have hkey : key = k := Std.LawfulEqCmp.eq_of_compare he
      subst hkey
      have hnot : (key, value) ∉ rest := fun hm => hk (List.mem_map.mpr ⟨_, hm, rfl⟩)
      simp [get?, hnot, eq_comm]
    · have hne : key ≠ k := by rintro rfl; exact he Std.ReflCmp.compare_self
      simp [get?, he, hne, ih hrest]

theorem get?_eq_some_iff {key : κ} {value : ν} {pairs : List (κ × ν)} (h : Ascending pairs) :
    get? key pairs = some value ↔ (key, value) ∈ pairs := get?_eq_some_iff_of_nodup (nodup_keys h)

theorem get?_perm {pairs pairs' : List (κ × ν)} (hn : (pairs.map (·.1)).Nodup) (h : pairs.Perm pairs') (key : κ) :
    get? key pairs = get? key pairs' := by
  ext value
  rw [get?_eq_some_iff_of_nodup hn, get?_eq_some_iff_of_nodup ((h.map _).nodup_iff.mp hn), h.mem_iff]

theorem alter_perm {key : κ} (f : Option ν → ν) {pairs : List (κ × ν)} (h : key ∉ pairs.map (·.1)) :
    (alter key f pairs).Perm ((key, f none) :: pairs) := by
  induction pairs with
  | nil => exact .refl _
  | cons p rest ih =>
    obtain ⟨k, v⟩ := p
    rw [List.map_cons, List.mem_cons, not_or] at h
    rw [alter]
    split
    · exact .refl _
    · next he => exact absurd (Std.LawfulEqCmp.eq_of_compare he) h.1
    · exact ((ih h.2).cons _).trans (.swap _ _ _)

theorem get?_alter_of_ne {key other : κ} (f : Option ν → ν) (pairs : List (κ × ν)) (h : other ≠ key) :
    get? other (alter key f pairs) = get? other pairs := by
  have hne : compare other key ≠ .eq := fun he => h (Std.LawfulEqCmp.eq_of_compare he)
  induction pairs with
  | nil => simp [alter, get?, hne]
  | cons p rest ih =>
    obtain ⟨k, v⟩ := p
    simp only [alter]
    split
    · simp [get?, hne]
    · next he =>
      have hkey : key = k := Std.LawfulEqCmp.eq_of_compare he
      subst hkey
      simp [get?, hne]
    · simp [get?, ih]

omit [Std.LawfulEqOrd κ] in
theorem ascending_congr {pairs : List (κ × ν)} {pairs' : List (κ × μ)}
    (h : pairs.map Prod.fst = pairs'.map Prod.fst) : Ascending pairs ↔ Ascending pairs' := by
  have hkeys {β : Type} (ps : List (κ × β)) : (ps.map Prod.fst).Pairwise (compare · · = .lt) ↔ Ascending ps :=
    List.pairwise_map
  rw [← hkeys, h, hkeys]

omit [Std.LawfulEqOrd κ] in
theorem get?_map (f : ν → μ) (key : κ) (pairs : List (κ × ν)) :
    get? key (pairs.map fun p => (p.1, f p.2)) = (get? key pairs).map f := by
  induction pairs with
  | nil => rfl
  | cons p rest ih =>
    obtain ⟨k, v⟩ := p
    rw [List.map_cons, get?, get?]
    split
    · rfl
    · exact ih

theorem get?_of_split [DecidableEq κ] {key : κ} {value : ν} {front back : List (κ × ν)} (h : Ascending (front ++ (key, value) :: back))
    (other : κ) : get? other (front ++ back) =
      if other = key then none else get? other (front ++ (key, value) :: back) := by
  have hrest : Ascending (front ++ back) := h.sublist ((List.sublist_cons_self _ _).append_left _)
  obtain ⟨-, hcons, hcross⟩ := List.pairwise_append.mp h
  have hback := (List.pairwise_cons.mp hcons).1
  have hkey : ∀ p ∈ front ++ back, p.1 ≠ key := by
    rintro p hp rfl
    rcases List.mem_append.mp hp with hp | hp
    · have hlt := hcross p hp _ List.mem_cons_self
      simp [Std.ReflCmp.compare_self] at hlt
    · have hlt := hback p hp
      simp [Std.ReflCmp.compare_self] at hlt
  ext x
  rw [get?_eq_some_iff hrest]
  split
  · next he => exact ⟨fun hm => absurd he (hkey _ hm), nofun⟩
  · next hne =>
    rw [get?_eq_some_iff h]
    simp [hne]

variable [Std.TransOrd κ]

theorem eq_of_get?_eq {pairs pairs' : List (κ × ν)} (h : Ascending pairs) (h' : Ascending pairs')
    (hget : ∀ key, get? key pairs = get? key pairs') : pairs = pairs' := by
  have hirrefl : Std.Irrefl fun p q : κ × ν => compare p.1 q.1 = .lt :=
    ⟨fun p hlt => by simp [Std.ReflCmp.compare_self] at hlt⟩
  have hantisymm : Std.Antisymm fun p q : κ × ν => compare p.1 q.1 = .lt :=
    ⟨fun p q hpq hqp => absurd (Std.TransCmp.lt_trans hpq hqp) (by simp [Std.ReflCmp.compare_self])⟩
  refine List.Pairwise.eq_of_mem_iff h h' fun p => ?_
  rw [← get?_eq_some_iff h, hget, get?_eq_some_iff h']

theorem get?_eq_none_of_lt {key k : κ} {v : ν} {rest : List (κ × ν)} (h : Ascending ((k, v) :: rest))
    (hlt : compare key k = .lt) : get? key ((k, v) :: rest) = none := by
  rw [Option.eq_none_iff_forall_ne_some]
  intro value hs
  rcases List.mem_cons.mp ((get?_eq_some_iff h).mp hs) with he | hm
  · cases he
    simp [Std.ReflCmp.compare_self] at hlt
  · have hk := (List.pairwise_cons.mp h).1 _ hm
    have hself := Std.TransCmp.lt_trans hlt hk
    simp [Std.ReflCmp.compare_self] at hself

theorem get?_alter_self (key : κ) (f : Option ν → ν) {pairs : List (κ × ν)} (h : Ascending pairs) :
    get? key (alter key f pairs) = some (f (get? key pairs)) := by
  induction pairs with
  | nil => simp [alter, get?]
  | cons p rest ih =>
    obtain ⟨k, v⟩ := p
    simp only [alter]
    split
    · next hlt => rw [get?_eq_none_of_lt h hlt]; simp [get?]
    · next he => simp [get?, he]
    · next hgt => simp [get?, hgt, ih (List.pairwise_cons.mp h).2]

omit [Std.LawfulEqOrd κ] in
theorem alter_eq_append {key : κ} (f : Option ν → ν) {pairs : List (κ × ν)}
    (h : ∀ p ∈ pairs, compare p.1 key = .lt) : alter key f pairs = pairs ++ [(key, f none)] := by
  induction pairs with
  | nil => rfl
  | cons p rest ih =>
    obtain ⟨hp, hrest⟩ := List.forall_mem_cons.mp h
    have hgt : compare key p.1 = .gt := Std.OrientedCmp.gt_of_lt hp
    rw [alter, hgt, ih hrest]
    rfl

omit [Std.LawfulEqOrd κ] [Std.TransOrd κ] in
theorem flatten_alter_perm (key : κ) (x : μ) (pairs : List (κ × List μ)) :
    ((alter key (fun found => found.getD [] ++ [x]) pairs).map (·.2)).flatten.Perm
      ((pairs.map (·.2)).flatten ++ [x]) := by
  induction pairs with
  | nil => exact .refl _
  | cons p rest ih =>
    obtain ⟨k, xs⟩ := p
    simp only [alter]
    split
    · exact List.perm_append_comm
    · simp only [Option.getD_some, List.map_cons, List.flatten_cons, List.append_assoc]
      exact List.perm_append_comm.append_left xs
    · simp only [List.map_cons, List.flatten_cons, List.append_assoc]
      exact ih.append_left xs

end Pairs

namespace SortedMap

variable (m : SortedMap κ ν)

theorem mem_toList_iff {key : κ} {value : ν} : (key, value) ∈ m.toList ↔ m.get? key = some value :=
  (Pairs.get?_eq_some_iff m.ascending).symm

theorem mem_keys_iff {key : κ} : key ∈ m.keys ↔ (m.get? key).isSome := by
  simp [keys, Option.isSome_iff_exists, ← mem_toList_iff]

theorem mem_values_iff {value : ν} : value ∈ m.values ↔ ∃ key, m.get? key = some value := by
  simp [values, ← mem_toList_iff]

theorem nodup_keys : m.keys.Nodup := Pairs.nodup_keys m.ascending

theorem sum_toList {β : Type} [AddCommMonoid β] [DecidableEq κ] (f : κ → ν → β) {ks : Finset κ}
    (h : ∀ key, (m.get? key).isSome → key ∈ ks) :
    (m.toList.map fun p => f p.1 p.2).sum = ∑ key ∈ ks, ((m.get? key).map (f key)).getD 0 := by
  have hget : ∀ p ∈ m.toList, f p.1 p.2 = ((m.get? p.1).map (f p.1)).getD 0 := by
    intro p hp
    rw [m.mem_toList_iff.mp hp]
    rfl
  have hsub : ∑ key ∈ m.keys.toFinset, ((m.get? key).map (f key)).getD 0 =
      ∑ key ∈ ks, ((m.get? key).map (f key)).getD 0 := by
    apply Finset.sum_subset
    · intro key hk
      exact h key (m.mem_keys_iff.mp (List.mem_toFinset.mp hk))
    · intro key _ hk
      rw [List.mem_toFinset, m.mem_keys_iff] at hk
      simp [Option.not_isSome_iff_eq_none.mp hk]
  rw [List.map_congr_left hget, ← hsub, List.sum_toFinset _ m.nodup_keys, keys, List.map_map]
  rfl

omit [Std.LawfulEqOrd κ] in
@[simp]
theorem get?_empty (key : κ) : (empty : SortedMap κ ν).get? key = none := rfl

variable [Std.TransOrd κ]

theorem ext_get? {m m' : SortedMap κ ν} (h : ∀ key, m.get? key = m'.get? key) : m = m' :=
  SortedMap.ext (Pairs.eq_of_get?_eq m.ascending m'.ascending h)

theorem map_toList_congr {ν' : Type} {m : SortedMap κ ν} {m' : SortedMap κ ν'} {f : ν → μ} {f' : ν' → μ}
    (h : ∀ key, (m.get? key).map f = (m'.get? key).map f') :
    m.toList.map (fun p => (p.1, f p.2)) = m'.toList.map fun p => (p.1, f' p.2) := by
  apply Pairs.eq_of_get?_eq
  · exact List.pairwise_map.mpr m.ascending
  · exact List.pairwise_map.mpr m'.ascending
  · intro key
    rw [Pairs.get?_map, Pairs.get?_map]
    exact h key

theorem keys_congr {ν' : Type} {m : SortedMap κ ν} {m' : SortedMap κ ν'}
    (h : ∀ key, (m.get? key).isSome = (m'.get? key).isSome) : m.keys = m'.keys := by
  have hunit : ∀ key, (m.get? key).map (fun _ => ()) = (m'.get? key).map fun _ => () := by
    intro key
    have hkey := h key
    cases hm : m.get? key <;> cases hm' : m'.get? key <;> simp_all
  have hfirst := congrArg (List.map Prod.fst) (map_toList_congr hunit)
  rwa [List.map_map, List.map_map] at hfirst

variable [DecidableEq κ]

theorem get?_alter (key other : κ) (f : Option ν → ν) :
    (m.alter key f).get? other = if other = key then some (f (m.get? key)) else m.get? other := by
  split
  · next h => rw [h]; exact Pairs.get?_alter_self key f m.ascending
  · next h => exact Pairs.get?_alter_of_ne f m.toList h

theorem exists_split_of_fresh {ν' : Type} {m : SortedMap κ ν} {m' : SortedMap κ ν'} {f : ν → μ} {f' : ν' → μ} {key : κ}
    {value : ν'} (hnone : m.get? key = none) (hsome : m'.get? key = some value)
    (h : ∀ other, other ≠ key → (m.get? other).map f = (m'.get? other).map f') :
    ∃ front back, m.toList.map (fun p => (p.1, f p.2)) = front ++ back ∧
      m'.toList.map (fun p => (p.1, f' p.2)) = front ++ (key, f' value) :: back := by
  have hascending' : Pairs.Ascending (m'.toList.map fun p => (p.1, f' p.2)) := List.pairwise_map.mpr m'.ascending
  have hmem : (key, f' value) ∈ m'.toList.map fun p => (p.1, f' p.2) :=
    List.mem_map.mpr ⟨(key, value), m'.mem_toList_iff.mpr hsome, rfl⟩
  obtain ⟨front, back, hsplit⟩ := List.append_of_mem hmem
  rw [hsplit] at hascending'
  have hascending : Pairs.Ascending (front ++ back) :=
    hascending'.sublist ((List.sublist_cons_self _ _).append_left _)
  refine ⟨front, back, Pairs.eq_of_get?_eq (List.pairwise_map.mpr m.ascending) hascending fun other => ?_, hsplit⟩
  rw [Pairs.get?_map, Pairs.get?_of_split hascending', ← hsplit, Pairs.get?_map]
  split
  · next he => rw [he]; exact congrArg (Option.map f) hnone
  · next hne => exact h other hne

theorem get?_insert (key other : κ) (value : ν) :
    (m.insert key value).get? other = if other = key then some value else m.get? other :=
  m.get?_alter key other fun _ => value

theorem get?_modify (key other : κ) (f : ν → ν) :
    (m.modify key f).get? other = if other = key then (m.get? key).map f else m.get? other := by
  unfold modify
  split
  · next h => rw [get?_insert, h]; rfl
  · next h => by_cases he : other = key <;> simp [he, h]

theorem get?_ofList {pairs : List (κ × ν)} (h : (pairs.map (·.1)).Nodup) {key : κ} {value : ν} :
    (ofList pairs).get? key = some value ↔ (key, value) ∈ pairs := by
  have hfold : ∀ (pairs : List (κ × ν)) (m : SortedMap κ ν), (pairs.map (·.1)).Nodup →
      ((pairs.foldl (fun m p => m.insert p.1 p.2) m).get? key = some value ↔
        (key, value) ∈ pairs ∨ key ∉ pairs.map (·.1) ∧ m.get? key = some value) := by
    intro pairs
    induction pairs with
    | nil => simp
    | cons p rest ih =>
      intro m hn
      obtain ⟨k, v⟩ := p
      obtain ⟨hk, hrest⟩ := List.nodup_cons.mp hn
      rw [List.foldl_cons, ih _ hrest, get?_insert]
      have hkv : ∀ v, (k, v) ∉ rest := fun v hm => hk (List.mem_map.mpr ⟨_, hm, rfl⟩)
      by_cases he : key = k
      · subst he
        simp [hkv, hk, eq_comm]
      · simp [he]
  simpa [ofList] using hfold pairs empty h

omit [DecidableEq κ] in
theorem toList_ofList {pairs : List (κ × ν)} (h : Pairs.Ascending pairs) :
    (ofList pairs).toList = pairs := by
  have hfold : ∀ (pairs : List (κ × ν)) (m : SortedMap κ ν), Pairs.Ascending (m.toList ++ pairs) →
      (pairs.foldl (fun m p => m.insert p.1 p.2) m).toList = m.toList ++ pairs := by
    intro pairs
    induction pairs with
    | nil => simp
    | cons p rest ih =>
      intro m hm
      have hlast : (m.insert p.1 p.2).toList = m.toList ++ [p] :=
        Pairs.alter_eq_append _ fun q hq => (List.pairwise_append.mp hm).2.2 q hq p List.mem_cons_self
      rw [List.foldl_cons, ih, hlast, List.append_assoc, List.singleton_append]
      rwa [hlast, List.append_assoc, List.singleton_append]
  exact hfold pairs empty h

omit [DecidableEq κ] in
theorem toList_ofList_perm {pairs : List (κ × ν)} (h : (pairs.map (·.1)).Nodup) : (ofList pairs).toList.Perm pairs := by
  classical
  refine (List.perm_ext_iff_of_nodup (.of_map _ (nodup_keys _)) (.of_map _ h)).mpr fun p => ?_
  rw [mem_toList_iff, get?_ofList h]

theorem ofList_perm {pairs pairs' : List (κ × ν)} (hn : (pairs.map (·.1)).Nodup) (h : pairs.Perm pairs') :
    ofList pairs = ofList pairs' := by
  have hn' : (pairs'.map (·.1)).Nodup := (h.map _).nodup_iff.mp hn
  apply ext_get?
  intro key
  ext value
  rw [get?_ofList hn, get?_ofList hn', h.mem_iff]

omit [Ord κ] [Std.LawfulEqOrd κ] [Std.TransOrd κ] in
theorem filter_key_eq_nil {key : μ → κ} {xs : List μ} {k : κ} (h : k ∉ xs.map key) : xs.filter (key · = k) = [] := by
  simpa [List.filter_eq_nil_iff] using h

theorem get?_groupBy_eq (key : μ → κ) (xs : List μ) (k : κ) :
    (groupBy key xs).get? k = if k ∈ xs.map key then some (xs.filter (key · = k)) else none := by
  have hfold : ∀ (xs : List μ) (m : SortedMap κ (List μ)),
      (xs.foldl (fun m x => m.alter (key x) fun found => found.getD [] ++ [x]) m).get? k =
        if k ∈ xs.map key then some ((m.get? k).getD [] ++ xs.filter (key · = k)) else m.get? k := by
    intro xs
    induction xs with
    | nil => simp
    | cons x rest ih =>
      intro m
      rw [List.foldl_cons, ih, get?_alter, List.map_cons, List.filter_cons]
      by_cases he : k = key x
      · by_cases hrest : k ∈ rest.map key
        · simp [← he, hrest]
        · simp [← he, hrest, filter_key_eq_nil hrest]
      · simp [he, Ne.symm he]
  simpa [groupBy] using hfold xs empty

theorem get?_groupBy (key : μ → κ) (xs : List μ) (k : κ) :
    ((groupBy key xs).get? k).getD [] = xs.filter (key · = k) := by
  rw [get?_groupBy_eq]
  split
  · rfl
  · next hk => rw [filter_key_eq_nil hk, Option.getD_none]

omit [DecidableEq κ] in
theorem values_groupBy_perm (key : μ → κ) (xs : List μ) : (groupBy key xs).values.flatten.Perm xs := by
  have hfold : ∀ (xs : List μ) (m : SortedMap κ (List μ)),
      (xs.foldl (fun m x => m.alter (key x) fun found => found.getD [] ++ [x]) m).values.flatten.Perm
        (m.values.flatten ++ xs) := by
    intro xs
    induction xs with
    | nil => intro m; rw [List.append_nil]; exact .refl _
    | cons x rest ih =>
      intro m
      rw [List.append_cons]
      exact (ih _).trans ((Pairs.flatten_alter_perm (key x) x m.toList).append_right rest)
  exact hfold xs empty

end SortedMap

end GpuProfile
