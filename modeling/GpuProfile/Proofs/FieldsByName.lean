import GpuProfile.Proofs.WrittenRecords

/-!
What a record is read as from the members of a value. Each field is read by itself from the members that it
accepts, so that neither the order of the members matters nor by which of its names a field is given.
-/

namespace GpuProfile.Json

def valued (members : List (String × Value)) : List (Key × Value) :=
  members.map fun p => (⟨.written p.1.toList, some p.1⟩, p.2)

theorem toOption_eq_some_iff {ε τ : Type} {x : Except ε τ} {y : τ} : x.toOption = some y ↔ x = .ok y := by
  cases x <;> simp [Except.toOption]

namespace Field

variable {τ : Type} (field : Field τ)

def complete : Option τ → List Value → Option τ
  | none, [] => field.fallback
  | none, [value] => (field.codec.read value).toOption
  | some x, [] => some x
  | _, _ => none

theorem complete_none_cons (value : Value) (values : List Value) :
    field.complete none (value :: values) =
      (field.codec.read value).toOption.bind fun x => field.complete (some x) values := by
  cases values with
  | nil => cases h : field.codec.read value <;> simp [complete, h, Except.toOption]
  | cons other values => cases h : field.codec.read value <;> simp [complete, Except.toOption]

theorem complete_nil (slot : Option τ) : field.complete slot [] = slot.or field.fallback := by
  cases slot <;> rfl

theorem complete_perm {values values' : List Value} (h : values.Perm values') (slot : Option τ) :
    field.complete slot values = field.complete slot values' := by
  match values, values', h with
  | [], values', h => rw [h.nil_eq]
  | [value], values', h => rw [List.singleton_perm.mp h]
  | _ :: _ :: _, [], h => cases h.eq_nil
  | _ :: _ :: _, [_], h => cases List.perm_singleton.mp h
  | _ :: _ :: _, _ :: _ :: _, _ => cases slot <;> rfl

theorem accepts_iff {key : String} : field.accepts key ↔ key ∈ field.name :: field.aliases := by
  rw [accepts, Bool.or_eq_true, beq_iff_eq, List.contains_iff_mem, List.mem_cons]

end Field

namespace Fields

variable {τs : List Type}

def complete : {τs : List Type} → Fields τs → Slots τs → List (String × Value) → Option (Tuple τs)
  | _, .nil, _, _ => some ()
  | _, .cons field rest, (slot, slots), members =>
    Option.map₂ Prod.mk (field.complete slot ((members.filter (field.accepts ·.1)).map (·.2)))
      (rest.complete slots (members.filter (!field.accepts ·.1)))

theorem complete_cons_of_accepts {τ : Type} {field : Field τ} {p : String × Value} (h : field.accepts p.1 = true)
    (rest : Fields τs) (slot : Option τ) (slots : Slots τs) (members : List (String × Value)) :
    (cons field rest).complete (slot, slots) (p :: members) =
      Option.map₂ Prod.mk (field.complete slot (p.2 :: (members.filter (field.accepts ·.1)).map (·.2)))
        (rest.complete slots (members.filter (!field.accepts ·.1))) := by
  simp only [complete, List.filter_cons, h, Bool.not_true, if_true, Bool.false_eq_true, if_false, List.map_cons]
  rfl

theorem complete_cons_of_not_accepts {τ : Type} {field : Field τ} {p : String × Value} (h : field.accepts p.1 = false)
    (rest : Fields τs) (slot : Option τ) (slots : Slots τs) (members : List (String × Value)) :
    (cons field rest).complete (slot, slots) (p :: members) =
      Option.map₂ Prod.mk (field.complete slot ((members.filter (field.accepts ·.1)).map (·.2)))
        (rest.complete slots (p :: members.filter (!field.accepts ·.1))) := by
  simp only [complete, List.filter_cons, h, Bool.not_false, if_true, Bool.false_eq_true, if_false]
  rfl

-- A member is read by the first field that accepts its key, into a slot that is still free.
theorem complete_cons (fields : Fields τs) (slots : Slots τs) (index : ℕ) (p : String × Value)
    (members : List (String × Value)) : fields.complete slots (p :: members) =
      match fields.fill index p.1 p.2 slots with
      | none => fields.complete slots members
      | some filled => filled.toOption.bind fun slots => fields.complete slots members := by
  induction fields generalizing members with
  | nil => rfl
  | cons field rest ih =>
    obtain ⟨slot, slots⟩ := slots
    cases ha : field.accepts p.1 with
    | true =>
      rw [complete_cons_of_accepts ha, fill, if_pos ha]
      cases slot with
      | some x => rfl
      | none =>
        rw [Field.complete_none_cons]
        dsimp only [Option.isSome_none, Codec.readAt]
        cases field.codec.read p.2 with
        | error r => rfl
        | ok x => rfl
    | false =>
      rw [complete_cons_of_not_accepts ha, fill, ha, if_neg Bool.false_ne_true, ih]
      cases rest.fill index p.1 p.2 slots with
      | none => rfl
      | some filled =>
        cases filled with
        | ok filled => rfl
        | error r => exact Option.map₂_none_right _ _

theorem complete_nil (fields : Fields τs) (slots : Slots τs) :
    fields.complete slots [] = (fields.settle slots).toOption := by
  induction fields with
  | nil => rfl
  | cons field rest ih =>
    obtain ⟨slot, slots⟩ := slots
    rw [complete, settle, List.filter_nil, List.filter_nil, List.map_nil, ih, Field.complete_nil]
    cases slot.or field.fallback with
    | none => rfl
    | some x => cases rest.settle slots <;> rfl

theorem fillAll_settle (fields : Fields τs) (index : ℕ) (members : List (String × Value)) (slots : Slots τs) :
    (fields.fillAll index (valued members) slots >>= fields.settle).toOption = fields.complete slots members := by
  induction members generalizing index slots with
  | nil => exact (fields.complete_nil slots).symm
  | cons p members ih =>
    rw [fields.complete_cons slots index]
    show (fields.fillAll index ((⟨.written p.1.toList, some p.1⟩, p.2) :: valued members) slots >>= _).toOption = _
    dsimp only [fillAll]
    cases fields.fill index p.1 p.2 slots with
    | none => exact ih (index + 1) slots
    | some filled =>
      cases filled with
      | error r => rfl
      | ok filled => exact ih (index + 1) filled

theorem complete_perm (fields : Fields τs) {members members' : List (String × Value)} (h : members.Perm members')
    (slots : Slots τs) : fields.complete slots members = fields.complete slots members' := by
  induction fields generalizing members members' with
  | nil => rfl
  | cons field rest ih =>
    obtain ⟨slot, slots⟩ := slots
    rw [complete, complete, ih (h.filter _), field.complete_perm ((h.filter _).map _)]

def spellings : {τs : List Type} → Fields τs → List (List String)
  | _, .nil => []
  | _, .cons field rest => (field.name :: field.aliases) :: rest.spellings

def Matches (fields : Fields τs) (p p' : String × Value) : Prop :=
  (∀ names ∈ fields.spellings, p.1 ∈ names ↔ p'.1 ∈ names) ∧ p.2 = p'.2

theorem complete_matches (fields : Fields τs) {members members' : List (String × Value)}
    (h : List.Forall₂ fields.Matches members members') (slots : Slots τs) :
    fields.complete slots members = fields.complete slots members' := by
  induction fields generalizing members members' with
  | nil => rfl
  | cons field rest ih =>
    obtain ⟨slot, slots⟩ := slots
    have haccepts : ∀ p p', (cons field rest).Matches p p' → field.accepts p.1 = field.accepts p'.1 := by
      intro p p' hp
      rw [Bool.eq_iff_iff, field.accepts_iff, field.accepts_iff]
      exact hp.1 _ List.mem_cons_self
    have hmine : List.Forall₂ (cons field rest).Matches (members.filter (field.accepts ·.1))
        (members'.filter (field.accepts ·.1)) :=
      List.rel_filter (fun {p p'} hp => by simp only [haccepts p p' hp]) h
    have hothers : List.Forall₂ (cons field rest).Matches (members.filter (!field.accepts ·.1))
        (members'.filter (!field.accepts ·.1)) :=
      List.rel_filter (fun {p p'} hp => by simp only [haccepts p p' hp]) h
    have hvalues : List.Forall₂ Eq ((members.filter (field.accepts ·.1)).map (·.2))
        ((members'.filter (field.accepts ·.1)).map (·.2)) :=
      List.rel_map (fun _ _ hp => hp.2) hmine
    rw [List.forall₂_eq_eq_eq] at hvalues
    rw [complete, complete, hvalues, ih (hothers.imp fun p p' hp => ⟨fun names hn => ?_, hp.2⟩)]
    exact hp.1 names (List.mem_cons_of_mem _ hn)

end Fields

def Respells (spellings : List (List String)) (key key' : String) : Prop :=
  key = key' ∨ ∃ names ∈ spellings, key ∈ names ∧ key' ∈ names

instance (spellings : List (List String)) (key key' : String) : Decidable (Respells spellings key key') :=
  inferInstanceAs (Decidable (key = key' ∨ _))

theorem Respells.mem_iff {spellings : List (List String)} (hn : spellings.flatten.Nodup) {key key' : String}
    (h : Respells spellings key key') {names : List String} (hm : names ∈ spellings) : key ∈ names ↔ key' ∈ names := by
  rcases h with rfl | ⟨names', hm', hkey, hkey'⟩
  · rfl
  · by_cases he : names = names'
    · subst he
      exact iff_of_true hkey hkey'
    · have : Std.Symm (List.Disjoint : List String → List String → Prop) := ⟨fun _ _ hxy => hxy.symm⟩
      have hdisjoint : List.Disjoint names names' := (List.nodup_flatten.mp hn).2.forall hm hm' he
      exact iff_of_false (fun hmem => hdisjoint hmem hkey) (fun hmem => hdisjoint hmem hkey')

/-- The same value, or two objects of which one has the members of the other under other names of their fields
and in any order. -/
inductive Respelt (spellings : List (List String)) : Value → Value → Prop
  | same (value : Value) : Respelt spellings value value
  | object {members renamed members' : List (String × Value)}
      (hnames : List.Forall₂ (fun p p' => Respells spellings p.1 p'.1 ∧ p.2 = p'.2) members renamed)
      (hperm : renamed.Perm members') : Respelt spellings (.object members) (.object members')

namespace Codec

variable {τs : List Type} {τ ρ : Type}

theorem read_object_eq_ok_iff {name : String} {fields : Fields τs} {build : Tuple τs → ρ} {parts : ρ → Tuple τs}
    {members : List (String × Value)} {x : ρ} : (record name fields build parts).read (Value.object members) = .ok x ↔
      ∃ xs, fields.complete fields.noSlots members = some xs ∧ build xs = x := by
  have hsettle := fields.fillAll_settle 0 members fields.noSlots
  have hread : (record name fields build parts).read (Value.object members) =
      (fields.fillAll 0 (valued members) fields.noSlots >>= fields.settle).map build := by
    show (fields.fillAll 0 (valued members) fields.noSlots >>= fun slots => (fields.settle slots).map build) = _
    cases fields.fillAll 0 (valued members) fields.noSlots <;> rfl
  simp only [hread, map_eq_ok, ← hsettle, toOption_eq_some_iff]

theorem read_respelt {name : String} {fields : Fields τs} {build : Tuple τs → ρ} {parts : ρ → Tuple τs}
    {spellings : List (List String)} {value value' : Value} (h : Respelt spellings value value')
    (hs : fields.spellings = spellings) (hn : spellings.flatten.Nodup) {x : ρ} :
    (record name fields build parts).read value = .ok x ↔ (record name fields build parts).read value' = .ok x := by
  subst hs
  cases h with
  | same => rfl
  | object hnames hperm =>
    have hmatches := hnames.imp fun p p' hp => (⟨fun names hm => hp.1.mem_iff hn hm, hp.2⟩ : fields.Matches p p')
    rw [read_object_eq_ok_iff, read_object_eq_ok_iff, fields.complete_matches hmatches, fields.complete_perm hperm]

theorem read_array_eq_ok_iff (codec : Codec τ) {items : List Value} {xs : List τ} :
    (list codec).read (Value.array items) = .ok xs ↔ List.Forall₂ (fun item x => codec.read item = .ok x) items xs := by
  rw [← codec.readItems_eq_ok_iff 0]
  show (codec.readItems 0 items >>= fun xs => .ok xs) = .ok xs ↔ _
  simp only [bind_eq_ok, Except.ok.injEq, exists_eq_right]

end Codec

end GpuProfile.Json
