import GpuProfile.Proofs.CaptureLayouts
import GpuProfile.Proofs.ReadableReports

namespace GpuProfile

open Json

namespace Json

mutual

def Value.arranged : Value → Value
  | .null => .null
  | .bool b => .bool b
  | .number n => .number n
  | .string s => .string s
  | .array items => .array (arrangedItems items)
  | .object members => .object (arrangedMembers members [])

def Value.arrangedItems : List Value → List Value
  | [] => []
  | item :: rest => item.arranged :: arrangedItems rest

def Value.arrangedMembers : List (String × Value) → List (String × Value) → List (String × Value)
  | [], found => found
  | (key, value) :: rest, found => arrangedMembers rest (Pairs.alter key (fun _ => value.arranged) found)

end

theorem Value.arrangedItems_eq_map (items : List Value) : arrangedItems items = items.map arranged := by
  induction items with
  | nil => rfl
  | cons item rest ih => rw [arrangedItems, ih, List.map_cons]

theorem Value.arrangedMembers_perm {members found : List (String × Value)} (hn : (members.map (·.1) ++ found.map (·.1)).Nodup) :
    (arrangedMembers members found).Perm (members.map (fun p => (p.1, p.2.arranged)) ++ found) := by
  induction members generalizing found with
  | nil => exact .refl _
  | cons p members ih =>
    obtain ⟨key, value⟩ := p
    rw [List.map_cons, List.cons_append] at hn
    have hkey : key ∉ found.map (·.1) := fun hmem => (List.nodup_cons.mp hn).1 (List.mem_append_right _ hmem)
    have halter := Pairs.alter_perm (fun _ => value.arranged) hkey
    have hn' : (members.map (·.1) ++ (Pairs.alter key (fun _ => value.arranged) found).map (·.1)).Nodup := by
      rw [((halter.map _).append_left _).nodup_iff, List.map_cons, List.nodup_middle]
      exact hn
    rw [arrangedMembers, List.map_cons, List.cons_append]
    apply (ih hn').trans
    exact (halter.append_left _).trans List.perm_middle

theorem map₂_mk_eq_some_iff {τ ρ : Type} {a : Option τ} {b : Option ρ} {x : τ} {y : ρ} :
    Option.map₂ Prod.mk a b = some (x, y) ↔ a = some x ∧ b = some y := by
  cases a <;> cases b <;> simp

namespace Fields

variable {τs τs' : List Type}

theorem Distinct.nodup_names {fields : Fields τs} (h : fields.Distinct) : fields.names.Nodup := by
  induction fields with
  | nil => exact List.nodup_nil
  | cons field rest ih =>
    obtain ⟨hfirst, hrest⟩ := h
    refine List.nodup_cons.mpr ⟨fun hmem => ?_, ih hrest⟩
    have haccepts := hfirst field.name hmem
    rw [accepts_name] at haccepts
    cases haccepts

def TreeYields : {τs τs' : List Type} → Fields τs → Fields τs' → Tuple τs → Tuple τs' → Prop
  | _, _, .nil, .nil, _, _ => True
  | _, _, .cons field rest, .cons field' rest', (x, xs), (y, ys) =>
    field'.codec.read (field.codec.write x).arranged = .ok y ∧ rest.TreeYields rest' xs ys
  | _, _, _, _, _, _ => False

theorem complete_tree_eq_some_iff {fields : Fields τs} {fields' : Fields τs'} (hd : fields'.Distinct)
    (hnames : fields.names = fields'.names) {xs : Tuple τs} {ys : Tuple τs'} :
    fields'.complete fields'.noSlots ((fields.members xs).map fun p => (p.1, p.2.arranged)) = some ys ↔
      fields.TreeYields fields' xs ys := by
  induction fields generalizing τs' with
  | nil =>
    cases fields' with
    | nil => exact iff_of_true rfl trivial
    | cons field' rest' => cases hnames
  | cons field rest ih =>
    cases fields' with
    | nil => cases hnames
    | cons field' rest' =>
      obtain ⟨x, xs⟩ := xs
      obtain ⟨y, ys⟩ := ys
      obtain ⟨hfirst, hrest⟩ := hd
      obtain ⟨hname, hnames⟩ := List.cons.inj hnames
      have hothers : ∀ p ∈ (rest.members xs).map fun p => (p.1, p.2.arranged), field'.accepts p.1 = false := by
        intro p hp
        obtain ⟨q, hq, rfl⟩ := List.mem_map.mp hp
        apply hfirst
        rw [← hnames, ← map_fst_members rest xs]
        exact List.mem_map.mpr ⟨q, hq, rfl⟩
      have hmine : field'.accepts field.name = true := by rw [hname, accepts_name]
      have hnone : ((rest.members xs).map fun p => (p.1, p.2.arranged)).filter (field'.accepts ·.1) = [] :=
        List.filter_eq_nil_iff.mpr fun p hp => by simp [hothers p hp]
      have hall : ((rest.members xs).map fun p => (p.1, p.2.arranged)).filter (!field'.accepts ·.1) =
          (rest.members xs).map fun p => (p.1, p.2.arranged) :=
        List.filter_eq_self.mpr fun p hp => by simp [hothers p hp]
      rw [TreeYields, ← ih hrest hnames, ← toOption_eq_some_iff, members, List.map_cons, noSlots,
        complete_cons_of_accepts hmine, hnone, hall, List.map_nil]
      exact map₂_mk_eq_some_iff

end Fields

end Json

namespace Json.Codec

variable {τ ρ : Type}

def Keeps (codec : Codec τ) : Prop := ∀ x, codec.read (codec.write x).arranged = .ok x

theorem read_integer_eq_ok_iff {name : String} {low high n m : ℤ} :
    (integer name low high).read (Value.number (.integer n)) = .ok m ↔ (low ≤ n ∧ n ≤ high) ∧ n = m := by
  show (if low ≤ n ∧ n ≤ high then Except.ok n else _) = .ok m ↔ _
  split
  · next h => rw [Except.ok.injEq, and_iff_right h]
  · next h => exact ⟨nofun, fun hn => absurd hn.1 h⟩

theorem read_int64_eq_ok_iff {n : ℤ} {x : Int64} : int64.read (Value.number (.integer n)) = .ok x ↔ x.toInt = n := by
  show ((integer "i64" _ _).read (Value.number (.integer n))).map Int64.ofInt = .ok x ↔ _
  simp only [map_eq_ok, read_integer_eq_ok_iff]
  constructor
  · rintro ⟨_, ⟨⟨hlow, hhigh⟩, rfl⟩, rfl⟩
    exact Int64.toInt_ofInt_of_le hlow (Int.lt_add_one_of_le hhigh)
  · rintro rfl
    exact ⟨_, ⟨⟨x.minValue_le_toInt, x.toInt_le⟩, rfl⟩, Int64.ofInt_toInt x⟩

theorem keeps_string : string.Keeps := fun _ => rfl

theorem keeps_float : float.Keeps := fun _ => rfl

theorem keeps_int32 : int32.Keeps := by
  intro x
  show ((integer "i32" _ _).read (Value.number (.integer x.toInt))).map Int32.ofInt = .ok x
  simp only [map_eq_ok, read_integer_eq_ok_iff]
  exact ⟨_, ⟨int32_bounds x, rfl⟩, Int32.ofInt_toInt x⟩

theorem keeps_uint64 : uint64.Keeps := by
  intro x
  have hx := x.toNat_lt_size
  show ((integer "u64" _ _).read (Value.number (.integer x.toNat))).map (fun n => n.toNat.toUInt64) = .ok x
  simp only [map_eq_ok, read_integer_eq_ok_iff]
  exact ⟨_, ⟨⟨by omega, by omega⟩, rfl⟩, UInt64.ofNat_toNat⟩

theorem Keeps.map {codec : Codec τ} (h : codec.Keeps) {into : τ → ρ} {back : ρ → τ} (hback : ∀ x, into (back x) = x) :
    (codec.map into back).Keeps := by
  intro x
  show (codec.read (codec.write (back x)).arranged).map into = .ok x
  rw [h, Except.map, hback]

theorem read_tree_list_iff {codec : Codec τ} {codec' : Codec ρ} {xs : List τ} {ys : List ρ} :
    codec'.list.read (codec.list.write xs).arranged = .ok ys ↔
      List.Forall₂ (fun x y => codec'.read (codec.write x).arranged = .ok y) xs ys := by
  show codec'.list.read (Value.array (Value.arrangedItems (xs.map codec.write))) = .ok ys ↔ _
  rw [Value.arrangedItems_eq_map, codec'.read_array_eq_ok_iff, List.forall₂_map_left_iff, List.forall₂_map_left_iff]

theorem read_tree_record_iff {τs τs' : List Type} {name name' : String} {fields : Fields τs} {fields' : Fields τs'}
    {build : Tuple τs → τ} {parts : τ → Tuple τs} {build' : Tuple τs' → ρ} {parts' : ρ → Tuple τs'}
    (hd : fields'.Distinct) (hnames : fields.names = fields'.names) {x : τ} {y : ρ} :
    (record name' fields' build' parts').read ((record name fields build parts).write x).arranged = .ok y ↔
      ∃ ys, fields.TreeYields fields' (parts x) ys ∧ build' ys = y := by
  have hn : ((fields.members (parts x)).map (·.1) ++ ([] : List (String × Value)).map (·.1)).Nodup := by
    rw [List.map_nil, List.append_nil]
    exact fields.map_fst_members (parts x) ▸ hnames ▸ hd.nodup_names
  have hperm := Value.arrangedMembers_perm hn
  rw [List.append_nil] at hperm
  show (record name' fields' build' parts').read (Value.object (Value.arrangedMembers _ [])) = .ok y ↔ _
  rw [read_object_eq_ok_iff, fields'.complete_perm hperm]
  simp only [Fields.complete_tree_eq_some_iff hd hnames]

theorem Keeps.list {codec : Codec τ} (h : codec.Keeps) : codec.list.Keeps := by
  intro xs
  exact read_tree_list_iff.mpr (List.forall₂_same.mpr fun x _ => h x)

end Json.Codec

open Json.Codec

theorem Operator.keeps_codec : Operator.codec.Keeps := by
  intro op
  show Except.ok (Operator.ofName op.name) = .ok op
  rw [Operator.ofName_name]

theorem CommandIndex.keeps_codec : CommandIndex.codec.Keeps := keeps_uint64.list.map fun _ => rfl

theorem Group.keeps_codec : Group.codec.Keeps := by
  intro g
  refine (read_tree_record_iff ?_ ?_).mpr ⟨(g.id, g.command, ()), ⟨?_, ?_, trivial⟩, rfl⟩
  · simp [Fields.Distinct, Fields.names, Field.accepts, Fields.required]
  · rfl
  · exact keeps_int32 g.id
  · exact CommandIndex.keeps_codec g.command

theorem Counter.keeps_codec : (Counter.codec .float).Keeps := by
  intro c
  refine (read_tree_record_iff ?_ ?_).mpr
    ⟨(c.name, c.unit, c.timestamps.toList, c.values.toList, c.operator, ()), ⟨?_, ?_, ?_, ?_, ?_, trivial⟩, rfl⟩
  · simp [Fields.Distinct, Fields.names, Field.accepts, Fields.required, Fields.optional]
  · rfl
  · exact keeps_string c.name
  · exact keeps_string c.unit
  · exact keeps_uint64.list c.timestamps.toList
  · exact keeps_float.list c.values.toList
  · exact Operator.keeps_codec c.operator

namespace RawSlice

def Holds (raw : RawSlice) (s : Slice) : Prop :=
  raw.group = s.group ∧ raw.depth = s.depth ∧ raw.ts.toInt = s.ts.toNat ∧ raw.dur.toInt = s.dur.toNat

theorem read_tree_iff {s : Slice} {raw : RawSlice} : codec.read (Slice.codec.write s).arranged = .ok raw ↔ raw.Holds s := by
  refine (read_tree_record_iff ?_ ?_).trans ⟨?_, ?_⟩
  · simp [Fields.Distinct, Fields.names, Field.accepts, Fields.required, Fields.optional]
  · rfl
  · rintro ⟨⟨group, depth, ts, dur, _⟩, ⟨hgroup, hdepth, hts, hdur, -⟩, rfl⟩
    rw [keeps_int32, Except.ok.injEq] at hgroup hdepth
    exact ⟨hgroup.symm, hdepth.symm, read_int64_eq_ok_iff.mp hts, read_int64_eq_ok_iff.mp hdur⟩
  · rintro ⟨hgroup, hdepth, hts, hdur⟩
    refine ⟨(raw.group, raw.depth, raw.ts, raw.dur, ()), ⟨?_, ?_, ?_, ?_, trivial⟩, rfl⟩
    · rw [hgroup]
      exact keeps_int32 s.group
    · rw [hdepth]
      exact keeps_int32 s.depth
    · exact read_int64_eq_ok_iff.mpr hts
    · exact read_int64_eq_ok_iff.mpr hdur

theorem toUInt64_eq_iff {x : Int64} (h : ¬x < 0) {u : UInt64} : x.toUInt64 = u ↔ x.toInt = u.toNat := by
  have hx : 0 ≤ x := Int64.not_lt.mp h
  rw [← UInt64.toNat_inj, Int64.toNat_toUInt64_of_le hx, ← Int64.cast_toNatClampNeg x hx, Int.natCast_inj]

theorem not_lt_zero {x : Int64} {u : UInt64} (h : x.toInt = u.toNat) : ¬x < 0 := by
  rw [Int64.lt_iff_toInt_lt, h, Int64.toInt_zero]
  omega

theorem toSlice_eq_ok_iff {raw : RawSlice} {s : Slice} : raw.toSlice = .ok s ↔ raw.Holds s := by
  obtain ⟨group, depth, ts, dur⟩ := s
  unfold toSlice
  split
  · next hts => exact ⟨nofun, fun hs => absurd hts (not_lt_zero hs.2.2.1)⟩
  · next hts =>
    split
    · next hdur => exact ⟨nofun, fun hs => absurd hdur (not_lt_zero hs.2.2.2)⟩
    · next hdur => rw [Except.ok.injEq, Slice.mk.injEq, toUInt64_eq_iff hts, toUInt64_eq_iff hdur, Holds]

theorem toSlices_eq_ok_iff {raws : List RawSlice} {slices : List Slice} :
    toSlices raws = .ok slices ↔ List.Forall₂ Holds raws slices := by
  induction raws generalizing slices with
  | nil => rw [toSlices, Except.ok.injEq, List.forall₂_nil_left_iff, eq_comm]
  | cons raw raws ih =>
    rw [toSlices, List.forall₂_cons_left_iff]
    simp only [bind_eq_ok, toSlice_eq_ok_iff, ih, Except.ok.injEq]
    constructor
    · rintro ⟨s, hs, slices, hslices, rfl⟩
      exact ⟨s, slices, hs, hslices, rfl⟩
    · rintro ⟨s, slices, hs, hslices, rfl⟩
      exact ⟨s, hs, slices, hslices, rfl⟩

theorem exists_holds_iff {s : Slice} : (∃ raw : RawSlice, raw.Holds s) ↔
    s.ts.toNat ≤ 2 ^ 63 - 1 ∧ s.dur.toNat ≤ 2 ^ 63 - 1 := by
  constructor
  · rintro ⟨raw, -, -, hts, hdur⟩
    have hts' : raw.ts.toInt ≤ 2 ^ 63 - 1 := raw.ts.toInt_le
    have hdur' : raw.dur.toInt ≤ 2 ^ 63 - 1 := raw.dur.toInt_le
    omega
  · rintro ⟨hts, hdur⟩
    refine ⟨⟨s.group, s.depth, Int64.ofInt s.ts.toNat, Int64.ofInt s.dur.toNat⟩, rfl, rfl, ?_, ?_⟩
    · exact Int64.toInt_ofInt_of_le (by omega) (by omega)
    · exact Int64.toInt_ofInt_of_le (by omega) (by omega)

end RawSlice

theorem exists_forall₂_iff {τ ρ : Type} {R : τ → ρ → Prop} {xs : List τ} :
    (∃ ys, List.Forall₂ R xs ys) ↔ ∀ x ∈ xs, ∃ y, R x y := by
  induction xs with
  | nil => simp
  | cons x xs ih =>
    rw [List.forall_mem_cons, ← ih]
    simp only [List.forall₂_cons_left_iff]
    constructor
    · rintro ⟨_, y, ys, hy, hys, rfl⟩
      exact ⟨⟨y, hy⟩, ys, hys⟩
    · rintro ⟨⟨y, hy⟩, ys, hys⟩
      exact ⟨y :: ys, y, ys, hy, hys, rfl⟩

namespace Capture

theorem ofValue_tree (c : Capture Float) : (ofValue ((codec .float).write c).arranged).outcome =
    (assemble ((Codec.list Slice.codec).write c.timeline.slices).arranged
      ((Codec.list Group.codec).write c.timeline.groups).arranged
      ((Codec.list (Counter.codec .float)).write c.counters).arranged, []) := ofValue_eq_assemble rfl rfl

theorem assemble_tree_eq_ok_iff {c c' : Capture Float} :
    assemble ((Codec.list Slice.codec).write c.timeline.slices).arranged
        ((Codec.list Group.codec).write c.timeline.groups).arranged
        ((Codec.list (Counter.codec .float)).write c.counters).arranged = .ok c' ↔
      (∀ s ∈ c.timeline.slices, ∃ raw : RawSlice, raw.Holds s) ∧ checkTraces c.timeline c.counters = .ok () ∧ c = c' := by
  obtain ⟨⟨slices, groups⟩, counters⟩ := c
  obtain ⟨⟨slices', groups'⟩, counters'⟩ := c'
  rw [assemble_eq_ok_iff, Group.keeps_codec.list, Counter.keeps_codec.list, ← exists_forall₂_iff]
  simp only [read_tree_list_iff, RawSlice.read_tree_iff, Except.ok.injEq]
  constructor
  · rintro ⟨raws, hraws, rfl, hslices, rfl, hcheck⟩
    have hslices' : RawSlice.toSlices raws = .ok slices := RawSlice.toSlices_eq_ok_iff.mpr hraws.flip
    rw [hslices', Except.ok.injEq] at hslices
    subst hslices
    exact ⟨⟨raws, hraws⟩, hcheck, rfl⟩
  · rintro ⟨⟨raws, hraws⟩, hcheck, hsame⟩
    cases hsame
    exact ⟨raws, hraws, rfl, RawSlice.toSlices_eq_ok_iff.mpr hraws.flip, rfl, hcheck⟩

/-- The tree of a capture that fits together is read as the capture, provided that all times of its slices lie in the
range of signed words, and else it is refused. -/
theorem read_tree {c : Capture Float} (h : checkTraces c.timeline c.counters = .ok ()) :
    ((∀ s ∈ c.timeline.slices, s.ts.toNat ≤ 2 ^ 63 - 1 ∧ s.dur.toNat ≤ 2 ^ 63 - 1) →
      (ofValue ((codec .float).write c).arranged).outcome = (.ok c, [])) ∧
    ((∃ s ∈ c.timeline.slices, 2 ^ 63 - 1 < s.ts.toNat ∨ 2 ^ 63 - 1 < s.dur.toNat) →
      ∃ fault, (ofValue ((codec .float).write c).arranged).outcome = (.error fault, [])) := by
  rw [ofValue_tree]
  constructor
  · intro hfits
    have hread := assemble_tree_eq_ok_iff.mpr ⟨fun s hs => RawSlice.exists_holds_iff.mpr (hfits s hs), h, rfl⟩
    rw [hread]
  · rintro ⟨s, hs, hlarge⟩
    generalize hread : assemble _ _ _ = outcome
    cases outcome with
    | error fault => exact ⟨fault, rfl⟩
    | ok c' =>
      obtain ⟨hts, hdur⟩ := RawSlice.exists_holds_iff.mp ((assemble_tree_eq_ok_iff.mp hread).1 s hs)
      omega

def Latest.slice : Slice := ⟨-3, 1, 9223372036854775807, 9223372036854775807⟩

def Later.slice : Slice := ⟨-3, 1, 9223372036854775808, 0⟩

def Latest.captureOf (s : Slice) : Capture Float where
  timeline := ⟨[⟨1, 0, 5, 7⟩, s], [⟨-3, ⟨[]⟩⟩, ⟨1, ⟨[0, 18446744073709551615]⟩⟩]⟩
  counters := [⟨"", "\n", #[], #[], .unsupported⟩,
    ⟨"Reads", "B", #[4, 18446744073709551615], #[-0.0, 0.1], .timeWeightedAverage⟩]

theorem latest_read : (ofValue ((codec .float).write (Latest.captureOf Latest.slice)).arranged).outcome =
      (.ok (Latest.captureOf Latest.slice), []) ∧
    ∃ fault, (ofValue ((codec .float).write (Latest.captureOf Later.slice)).arranged).outcome = (.error fault, []) := by
  obtain ⟨hfits, -⟩ := read_tree (c := Latest.captureOf Latest.slice) (by decide +kernel)
  obtain ⟨-, hlarge⟩ := read_tree (c := Latest.captureOf Later.slice) (by decide +kernel)
  exact ⟨hfits (by decide), hlarge ⟨Later.slice, by decide, by decide⟩⟩

end Capture

end GpuProfile
