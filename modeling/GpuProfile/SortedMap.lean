/-!
Finite maps kept as lists of pairs in ascending key order. Two maps with the same pairs are the
same value, and walking one visits its keys in order.
-/

namespace GpuProfile

variable {κ ν μ : Type} [Ord κ]

namespace Pairs

def get? (key : κ) : List (κ × ν) → Option ν
  | [] => none
  | (k, v) :: rest => if compare key k = .eq then some v else get? key rest

def alter (key : κ) (f : Option ν → ν) : List (κ × ν) → List (κ × ν)
  | [] => [(key, f none)]
  | (k, v) :: rest =>
    match compare key k with
    | .lt => (key, f none) :: (k, v) :: rest
    | .eq => (k, f (some v)) :: rest
    | .gt => (k, v) :: alter key f rest

def Ascending (pairs : List (κ × ν)) : Prop := pairs.Pairwise fun p q => compare p.1 q.1 = .lt

theorem mem_keys_alter {key : κ} {f : Option ν → ν} {p : κ × ν} {pairs : List (κ × ν)}
    (h : p ∈ alter key f pairs) : p.1 = key ∨ ∃ q ∈ pairs, q.1 = p.1 := by
  induction pairs with
  | nil => simp only [alter, List.mem_singleton] at h; exact .inl (by rw [h])
  | cons q rest ih =>
    obtain ⟨k, v⟩ := q
    simp only [alter] at h
    split at h
    · rcases List.mem_cons.mp h with rfl | h
      · exact .inl rfl
      · exact .inr ⟨p, h, rfl⟩
    · rcases List.mem_cons.mp h with rfl | h
      · exact .inr ⟨(k, v), List.mem_cons_self, rfl⟩
      · exact .inr ⟨p, List.mem_cons_of_mem _ h, rfl⟩
    · rcases List.mem_cons.mp h with rfl | h
      · exact .inr ⟨(k, v), List.mem_cons_self, rfl⟩
      · exact (ih h).imp id fun ⟨q, hq, he⟩ => ⟨q, List.mem_cons_of_mem _ hq, he⟩

theorem ascending_alter [Std.TransOrd κ] [Std.LawfulEqOrd κ] (key : κ) (f : Option ν → ν)
    {pairs : List (κ × ν)} (h : Ascending pairs) : Ascending (alter key f pairs) := by
  induction pairs with
  | nil => exact List.pairwise_singleton _ _
  | cons q rest ih =>
    obtain ⟨k, v⟩ := q
    obtain ⟨hk, hrest⟩ := List.pairwise_cons.mp h
    simp only [alter]
    split
    · next hlt =>
      refine List.pairwise_cons.mpr ⟨fun p hp => ?_, h⟩
      rcases List.mem_cons.mp hp with rfl | hp
      · exact hlt
      · exact Std.TransCmp.lt_trans hlt (hk p hp)
    · exact List.pairwise_cons.mpr ⟨hk, hrest⟩
    · next hgt =>
      refine List.pairwise_cons.mpr ⟨fun p hp => ?_, ih hrest⟩
      rcases mem_keys_alter hp with he | ⟨q, hq, he⟩
      · rw [he]; exact Std.OrientedCmp.lt_of_gt hgt
      · rw [← he]; exact hk q hq

end Pairs

@[ext] structure SortedMap (κ ν : Type) [Ord κ] where
  toList : List (κ × ν)
  ascending : Pairs.Ascending toList

namespace SortedMap

def empty : SortedMap κ ν := ⟨[], List.Pairwise.nil⟩

instance : Inhabited (SortedMap κ ν) := ⟨empty⟩

def get? (m : SortedMap κ ν) (key : κ) : Option ν := Pairs.get? key m.toList

def contains (m : SortedMap κ ν) (key : κ) : Bool := (m.get? key).isSome

def keys (m : SortedMap κ ν) : List κ := m.toList.map (·.1)

def values (m : SortedMap κ ν) : List ν := m.toList.map (·.2)

def size (m : SortedMap κ ν) : Nat := m.toList.length

def isEmpty (m : SortedMap κ ν) : Bool := m.toList.isEmpty

variable [Std.TransOrd κ] [Std.LawfulEqOrd κ]

def alter (m : SortedMap κ ν) (key : κ) (f : Option ν → ν) : SortedMap κ ν :=
  ⟨Pairs.alter key f m.toList, Pairs.ascending_alter key f m.ascending⟩

def insert (m : SortedMap κ ν) (key : κ) (value : ν) : SortedMap κ ν := m.alter key fun _ => value

def modify (m : SortedMap κ ν) (key : κ) (f : ν → ν) : SortedMap κ ν :=
  match m.get? key with
  | some value => m.insert key (f value)
  | none => m

def ofList (pairs : List (κ × ν)) : SortedMap κ ν :=
  pairs.foldl (fun m p => m.insert p.1 p.2) empty

def groupBy (key : μ → κ) (xs : List μ) : SortedMap κ (List μ) :=
  xs.foldl (fun m x => m.alter (key x) fun found => found.getD [] ++ [x]) empty

end SortedMap

end GpuProfile
