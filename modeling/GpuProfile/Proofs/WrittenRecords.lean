import GpuProfile.Proofs.WrittenPages
import GpuProfile.Proofs.SortedMapLaws
import GpuProfile.Json.Record

namespace GpuProfile.Json

section Except

variable {ε ε' τ ρ : Type} {x : Except ε τ}

theorem bind_eq_ok {f : τ → Except ε ρ} {y : ρ} : (x >>= f) = .ok y ↔ ∃ a, x = .ok a ∧ f a = .ok y := by
  cases x <;> simp [bind, Except.bind]

theorem map_eq_ok {f : τ → ρ} {y : ρ} : x.map f = .ok y ↔ ∃ a, x = .ok a ∧ f a = y := by
  cases x <;> simp [Except.map]

theorem mapError_eq_ok {f : ε → ε'} {y : τ} : x.mapError f = .ok y ↔ x = .ok y := by
  cases x <;> simp [Except.mapError]

end Except

def Key.ofText (text : String) : Key := ⟨.written (text.toList.flatMap escape), some text⟩

def keyed (members : List (String × Value)) : List (Key × Document) :=
  members.map fun p => (.ofText p.1, p.2.document)

theorem text?_written (text : String) : (Label.written (text.toList.flatMap escape)).text? = some text := by
  rw [Label.text?, unescape_flatMap_escape, Option.map_some, String.ofList_toList]

theorem view_string (s : String) : Source.view (Value.string s).document = .string s := by
  show Document.view (.string (s.toList.flatMap escape)) = .string s
  rw [Document.view, unescape_flatMap_escape]
  simp only [String.ofList_toList]

theorem view_array (items : List Value) :
    Source.view (Value.array items).document = .array (items.map Value.document) true := by
  rw [← Value.documents_eq_map]
  rfl

theorem view_object (members : List (String × Value)) :
    Source.view (Value.object members).document = .object (keyed members) true := by
  show Document.view (.object (Value.labelled members) true) = _
  rw [Document.view, Value.labelled_eq_map, List.map_map]
  congr 1
  refine List.map_congr_left fun p _ => ?_
  simp only [Function.comp_apply, text?_written]
  rfl

theorem view_integer {n : ℤ} (hlow : Int64.minValue.toInt ≤ n) (hhigh : n < UInt64.size) :
    Source.view (Value.number (.integer n)).document = .number (.integer n) := by
  show Document.view (.number (Numeral.ofInt n)) = _
  rw [Document.view, Numeral.value?_ofInt hlow hhigh]

namespace Codec

variable {τ ρ : Type}

def Yields (codec : Codec τ) (x y : τ) : Prop := codec.read (codec.write x).document = .ok y

def Faithful (codec : Codec τ) : Prop := ∀ x y, codec.Yields x y ↔ x = y

theorem readText_eq_ok_iff (codec : Codec τ) {layout : Value.Layout} (hl : layout.Blank) {x y : τ} :
    codec.readText ((codec.write x).text layout) = .ok y ↔ codec.Yields x y := by
  rw [readText, Value.ofText_text hl, Yields]
  dsimp only
  cases codec.read (codec.write x).document <;> simp

theorem yields_map_iff (codec : Codec τ) (into : τ → ρ) (back : ρ → τ) {x y : ρ} :
    (codec.map into back).Yields x y ↔ ∃ a, codec.Yields (back x) a ∧ into a = y := map_eq_ok

theorem Faithful.map {codec : Codec τ} (h : codec.Faithful) {into : τ → ρ} {back : ρ → τ}
    (hback : ∀ x, into (back x) = x) : (codec.map into back).Faithful := by
  intro x y
  rw [yields_map_iff]
  simp only [h (back x), exists_eq_left', hback]

theorem faithful_string : string.Faithful := by
  intro s y
  simp only [Yields, string, view_string, Except.ok.injEq]

theorem yields_integer_iff (name : String) {low high : ℤ} (hlow : Int64.minValue.toInt ≤ low)
    (hhigh : high < UInt64.size) {n : ℤ} (hn : low ≤ n ∧ n ≤ high) (m : ℤ) :
    (integer name low high).Yields n m ↔ n = m := by
  simp only [Yields, integer, view_integer (hlow.trans hn.1) (hn.2.trans_lt hhigh), boundedInteger, hn,
    and_self, if_true, Except.ok.injEq]

theorem int32_bounds (x : Int32) : Int32.minValue.toInt ≤ x.toInt ∧ x.toInt ≤ Int32.maxValue.toInt :=
  ⟨x.minValue_le_toInt, x.toInt_le⟩

theorem faithful_int32 : int32.Faithful := by
  intro x y
  rw [int32, yields_map_iff]
  simp only [yields_integer_iff "i32" (by decide) (by decide) (int32_bounds x), exists_eq_left', Int32.ofInt_toInt]

theorem faithful_uint64 : uint64.Faithful := by
  intro x y
  have hx : (0 : ℤ) ≤ x.toNat ∧ (x.toNat : ℤ) ≤ (UInt64.size - 1 : ℕ) := by
    have := x.toNat_lt_size
    omega
  rw [uint64, yields_map_iff]
  simp only [yields_integer_iff "u64" (by decide) (by decide) hx, exists_eq_left', Int.toNat_natCast,
    Nat.toUInt64_eq, UInt64.ofNat_toNat]

theorem yields_float_iff {x y : Float} :
    float.Yields x y ↔ x.isFinite ∧ (Decimal.numeral x).double? = some y := by
  show float.read (Value.numberDocument (.real x)) = .ok y ↔ _
  unfold Value.numberDocument
  dsimp only
  split
  · next hx =>
    simp only [float, Source.view, Document.view, Numeral.value?_eq_double? Decimal.numeral_not_integer, hx,
      true_and]
    cases (Decimal.numeral x).double? with
    | none => simp [View.mismatch]
    | some z => simp
  · next hx => simp [float, Source.view, Document.view, View.mismatch, hx]

theorem yields_tag_iff (parse : String → τ) (name : τ → String) {x y : τ} :
    (tag parse name).Yields x y ↔ parse (name x) = y := by
  simp only [Yields, tag, view_string, Except.ok.injEq]

theorem readItems_eq_ok_iff {ν : Type} [Source ν] (codec : Codec τ) (index : ℕ) (items : List ν) (ys : List τ) :
    codec.readItems index items = .ok ys ↔ List.Forall₂ (fun item y => codec.read item = .ok y) items ys := by
  induction items generalizing index ys with
  | nil => rw [readItems, Except.ok.injEq, List.forall₂_nil_left_iff, eq_comm]
  | cons item items ih =>
    rw [readItems, List.forall₂_cons_left_iff]
    simp only [bind_eq_ok, readAt, mapError_eq_ok, Except.ok.injEq, ih]
    constructor
    · rintro ⟨y, hy, ys, hys, rfl⟩
      exact ⟨y, ys, hy, hys, rfl⟩
    · rintro ⟨y, ys, hy, hys, rfl⟩
      exact ⟨y, hy, ys, hys, rfl⟩

theorem yields_list_iff (codec : Codec τ) {xs ys : List τ} :
    (list codec).Yields xs ys ↔ List.Forall₂ codec.Yields xs ys := by
  have hitems := codec.readItems_eq_ok_iff 0 (xs.map fun x => (codec.write x).document) ys
  rw [List.forall₂_map_left_iff] at hitems
  simp only [Yields, list, view_array, bind_eq_ok, if_true, List.map_map, Except.ok.injEq, exists_eq_right]
  exact hitems

theorem Faithful.list {codec : Codec τ} (h : codec.Faithful) : codec.list.Faithful := by
  intro xs ys
  have heq : codec.Yields = Eq := funext fun x => funext fun y => propext (h x y)
  rw [yields_list_iff, heq, List.forall₂_eq_eq_eq]

end Codec

theorem not_control {c : Char} (h : startsNumeral c) : ¬c < ' ' := by
  rw [startsNumeral, Bool.or_eq_true, beq_iff_eq] at h
  rcases h with rfl | h
  · decide
  · intro hc
    have hlow := lt_of_control hc
    have hdigit : 48 ≤ c.toNat := (Char.isDigit_iff_toNat.mp h).1
    omega

theorem escape_of_startsNumeral {c : Char} (h : startsNumeral c) : escape c = [c] := by
  unfold escape
  split
  all_goals try exact absurd h (by decide)
  rw [if_neg (not_control h)]

theorem flatMap_escape_toString (n : ℤ) : (toString n).toList.flatMap escape = (Numeral.ofInt n).spell := by
  rw [Numeral.toList_toString]
  have hplain : ∀ c ∈ (Numeral.ofInt n).spell, escape c = [c] := by
    intro c hc
    apply escape_of_startsNumeral
    simp only [Numeral.spell, List.mem_append, List.mem_ite_nil_right] at hc
    obtain ((⟨-, hc⟩ | hc) | hc) | hc := hc
    · rw [List.mem_singleton.mp hc]
      rfl
    · simp [startsNumeral, (Numeral.sound_ofInt n).whole c hc]
    · cases hc
    · cases hc
  rw [List.flatMap_congr hplain, List.flatMap_singleton']

namespace Codec

variable {τ : Type}

theorem readIntegerKey_toString (k : Int32) : readIntegerKey (.ofText (toString k.toInt)) = .ok k := by
  have hlow : Int64.minValue.toInt ≤ k.toInt := le_trans (by decide) (int32_bounds k).1
  have hhigh : k.toInt < UInt64.size := (int32_bounds k).2.trans_lt (by decide)
  have hscan := Numeral.scan_spell (Numeral.sound_ofInt k.toInt) (stops_nil carriesOn)
  rw [List.append_nil] at hscan
  simp only [readIntegerKey, Key.ofText, flatMap_escape_toString, hscan, Numeral.value?_ofInt hlow hhigh,
    boundedInteger, int32_bounds k, and_self, if_true]
  simp [bind, Except.bind]

def PairYields (codec : Codec τ) (p q : Int32 × τ) : Prop := p.1 = q.1 ∧ codec.Yields p.2 q.2

def integerMembers (codec : Codec τ) (pairs : List (Int32 × τ)) : List (String × Value) :=
  pairs.map fun (k, x) => (toString k.toInt, codec.write x)

-- Keys are written in ascending order, so each member read goes to the end of the map read so far.
theorem readIntegerMembers_eq_ok_iff (codec : Codec τ) (index : ℕ) (pairs : List (Int32 × τ))
    (found m : SortedMap Int32 τ) (h : Pairs.Ascending (found.toList ++ pairs)) :
    codec.readIntegerMembers index (keyed (codec.integerMembers pairs)) found = .ok m ↔
      ∃ read, List.Forall₂ codec.PairYields pairs read ∧ found.toList ++ read = m.toList := by
  induction pairs generalizing index found with
  | nil =>
    show Except.ok found = .ok m ↔ _
    simp [SortedMap.ext_iff]
  | cons p rest ih =>
    obtain ⟨k, x⟩ := p
    obtain ⟨-, -, hlt⟩ := List.pairwise_append.mp h
    have hinsert : ∀ a, (found.insert k a).toList = found.toList ++ [(k, a)] := fun a =>
      Pairs.alter_eq_append _ fun q hq => hlt q hq (k, x) List.mem_cons_self
    have hascending : ∀ a, Pairs.Ascending ((found.insert k a).toList ++ rest) := by
      intro a
      rw [hinsert]
      exact (Pairs.ascending_congr (by simp)).mp h
    show (codec.readIntegerMembers index ((.ofText (toString k.toInt), (codec.write x).document) ::
      keyed (codec.integerMembers rest)) found) = .ok m ↔ _
    rw [readIntegerMembers, readIntegerKey_toString]
    simp only [bind_eq_ok, readAt, mapError_eq_ok, Except.ok.injEq, exists_eq_left', ih _ _ (hascending _), hinsert,
      List.forall₂_cons_left_iff]
    constructor
    · rintro ⟨a, ha, read, hread, hm⟩
      exact ⟨(k, a) :: read, ⟨(k, a), read, ⟨rfl, ha⟩, hread, rfl⟩, by simpa using hm⟩
    · rintro ⟨_, ⟨⟨_, a⟩, read, ⟨rfl, ha⟩, hread, rfl⟩, hm⟩
      exact ⟨a, ha, read, hread, by simpa using hm⟩

theorem yields_integerMap_iff (codec : Codec τ) {m m' : SortedMap Int32 τ} :
    (integerMap codec).Yields m m' ↔ List.Forall₂ codec.PairYields m.toList m'.toList := by
  have hmembers := readIntegerMembers_eq_ok_iff codec 0 m.toList .empty m'
    (by simpa [SortedMap.empty] using m.ascending)
  simp only [SortedMap.empty, List.nil_append, exists_eq_right] at hmembers
  rw [← hmembers]
  show (integerMap codec).read (Value.object (codec.integerMembers m.toList)).document = .ok m' ↔ _
  simp only [integerMap, view_object, bind_eq_ok, if_true, Except.ok.injEq, exists_eq_right]
  rfl

end Codec

namespace Fields

variable {τ : Type} {τs : List Type}

def names : {τs : List Type} → Fields τs → List String
  | _, .nil => []
  | _, .cons field rest => field.name :: rest.names

def Distinct : {τs : List Type} → Fields τs → Prop
  | _, .nil => True
  | _, .cons field rest => (∀ name ∈ rest.names, field.accepts name = false) ∧ rest.Distinct

def Yields : {τs : List Type} → Fields τs → Tuple τs → Tuple τs → Prop
  | _, .nil, _, _ => True
  | _, .cons field rest, (x, xs), (y, ys) => field.codec.Yields x y ∧ rest.Yields xs ys

theorem map_fst_members (fields : Fields τs) (xs : Tuple τs) : (fields.members xs).map Prod.fst = fields.names := by
  induction fields with
  | nil => rfl
  | cons field rest ih =>
    obtain ⟨x, xs⟩ := xs
    rw [members, List.map_cons, ih, names]

theorem accepts_name (field : Field τ) : field.accepts field.name = true := by
  rw [Field.accepts, beq_self_eq_true, Bool.true_or]

-- Members that are not for the first field leave its slot as it is and fill those of the others.
theorem fillAll_cons {field : Field τ} {members : List (String × Value)}
    (h : ∀ p ∈ members, field.accepts p.1 = false) (rest : Fields τs) (index : ℕ) (slot : Option τ)
    (slots : Slots τs) :
    (cons field rest).fillAll index (keyed members) (slot, slots) =
      (rest.fillAll index (keyed members) slots).map fun filled => (slot, filled) := by
  induction members generalizing index slots with
  | nil => rfl
  | cons p members ih =>
    obtain ⟨hp, hmembers⟩ := List.forall_mem_cons.mp h
    show (cons field rest).fillAll index ((.ofText p.1, p.2.document) :: keyed members) (slot, slots) =
      (rest.fillAll index ((.ofText p.1, p.2.document) :: keyed members) slots).map _
    simp only [fillAll, Key.ofText, fill, hp, Bool.false_eq_true, if_false]
    cases rest.fill index p.1 p.2.document slots with
    | none =>
      dsimp only [Option.map_none]
      split
      · exact ih hmembers (index + 1) slots
      · rfl
    | some filled =>
      cases filled with
      | error r => rfl
      | ok filled => exact ih hmembers (index + 1) filled

theorem fillAll_name (field : Field τ) (rest : Fields τs) (index : ℕ) (source : Document)
    (members : List (Key × Document)) (slots : Slots τs) :
    (cons field rest).fillAll index ((.ofText field.name, source) :: members) (none, slots) =
      field.codec.readAt (.value index) source >>= fun x =>
        (cons field rest).fillAll (index + 1) members (some x, slots) := by
  simp only [fillAll, Key.ofText, fill, accepts_name, if_true, Option.isSome_none, Bool.false_eq_true, if_false]
  cases field.codec.readAt (.value index) source <;> rfl

theorem fillAll_settle_eq_ok_iff {fields : Fields τs} (h : fields.Distinct) (index : ℕ) (xs ys : Tuple τs) :
    (∃ slots, fields.fillAll index (keyed (fields.members xs)) fields.noSlots = .ok slots ∧
      fields.settle slots = .ok ys) ↔ fields.Yields xs ys := by
  induction fields generalizing index with
  | nil => exact ⟨fun _ => trivial, fun _ => ⟨(), rfl, rfl⟩⟩
  | cons field rest ih =>
    obtain ⟨x, xs⟩ := xs
    obtain ⟨y, ys⟩ := ys
    obtain ⟨hfirst, hrest⟩ := h
    have hmembers : ∀ p ∈ rest.members xs, field.accepts p.1 = false := fun p hp =>
      hfirst p.1 (map_fst_members rest xs ▸ List.mem_map_of_mem hp)
    show (∃ slots, (cons field rest).fillAll index ((.ofText field.name, (field.codec.write x).document) ::
      keyed (rest.members xs)) (none, rest.noSlots) = .ok slots ∧ _) ↔ _
    rw [Yields, ← ih hrest (index + 1), fillAll_name]
    constructor
    · rintro ⟨_, hfill, hsettle⟩
      obtain ⟨z, hz, hfill⟩ := bind_eq_ok.mp hfill
      rw [fillAll_cons hmembers] at hfill
      obtain ⟨slots, hslots, rfl⟩ := map_eq_ok.mp hfill
      obtain ⟨zs, hzs, he⟩ := map_eq_ok.mp hsettle
      obtain ⟨rfl, rfl⟩ := Prod.mk.inj he
      exact ⟨mapError_eq_ok.mp hz, slots, hslots, hzs⟩
    · rintro ⟨hy, slots, hslots, hys⟩
      refine ⟨(some y, slots), bind_eq_ok.mpr ⟨y, mapError_eq_ok.mpr hy, ?_⟩, map_eq_ok.mpr ⟨ys, hys, rfl⟩⟩
      rw [fillAll_cons hmembers]
      exact map_eq_ok.mpr ⟨slots, hslots, rfl⟩

end Fields

namespace Codec

variable {τs : List Type} {ρ : Type}

theorem yields_record_iff (name : String) {fields : Fields τs} (h : fields.Distinct) (build : Tuple τs → ρ)
    (parts : ρ → Tuple τs) {x y : ρ} :
    (record name fields build parts).Yields x y ↔ ∃ ys, fields.Yields (parts x) ys ∧ build ys = y := by
  simp only [Yields, record, view_object, bind_eq_ok, if_true, map_eq_ok, ← Fields.fillAll_settle_eq_ok_iff h 0]
  constructor
  · rintro ⟨slots, hslots, ys, hys, rfl⟩
    exact ⟨ys, ⟨slots, hslots, hys⟩, rfl⟩
  · rintro ⟨ys, ⟨slots, hslots, hys⟩, rfl⟩
    exact ⟨slots, hslots, ys, hys, rfl⟩

end Codec

end GpuProfile.Json
