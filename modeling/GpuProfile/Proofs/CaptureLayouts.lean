import GpuProfile.Proofs.FieldsByName
import GpuProfile.Trace.Reader

namespace GpuProfile

open Json

def RawSlice.spellings : List (List String) :=
  [["group_id", "groupId"], ["depth"], ["ts", "timestamp"], ["dur", "duration"]]

def Group.spellings : List (List String) :=
  [["id", "groupId", "group_id"], ["command_index", "commandIndex", "indices"]]

def Counter.spellings : List (List String) :=
  [["name"], ["unit"], ["timestamps"], ["values"], ["operator", "aggregation_operator", "aggregationOperator", "op"]]

theorem RawSlice.read_respelt {value value' : Value} (h : Respelt spellings value value') {s : RawSlice} :
    codec.read value = .ok s ↔ codec.read value' = .ok s := Codec.read_respelt h (by rfl) (by decide)

theorem Group.read_respelt {value value' : Value} (h : Respelt spellings value value') {g : Group} :
    codec.read value = .ok g ↔ codec.read value' = .ok g := Codec.read_respelt h (by rfl) (by decide)

theorem Counter.read_respelt {value value' : Value} (h : Respelt spellings value value') {c : Counter Float} :
    (codec .float).read value = .ok c ↔ (codec .float).read value' = .ok c := Codec.read_respelt h (by rfl) (by decide)

theorem Json.Codec.read_array_congr {τ : Type} (codec : Codec τ) {items items' : List Value}
    (h : List.Forall₂ (fun item item' => ∀ x, codec.read item = .ok x ↔ codec.read item' = .ok x) items items')
    (xs : List τ) : codec.list.read (Value.array items) = .ok xs ↔ codec.list.read (Value.array items') = .ok xs := by
  rw [codec.read_array_eq_ok_iff, codec.read_array_eq_ok_iff]
  induction h generalizing xs with
  | nil => rfl
  | cons hitem _ ih => simp only [List.forall₂_cons_left_iff, hitem, ih]

namespace Warned

variable {ε ε' τ ρ : Type}

theorem run_ofExcept_bind {wrap : ε' → ε} (x : Except ε' τ) {f : τ → Warned ε ρ} {g : τ → Except ε ρ} {ws : List Warning}
    (h : ∀ a, (f a).run.run ws = (g a, ws)) : (ofExcept wrap x >>= f).run.run ws = (x.mapError wrap >>= g, ws) := by
  cases x with
  | error e => rfl
  | ok a => exact h a

end Warned

namespace Capture

def assemble (slices groups counters : Value) : Except CaptureFault (Capture Float) := do
  let raw ← ((Codec.list RawSlice.codec).read slices).mapError fun r => .json r.fault
  let groups ← ((Codec.list Group.codec).read groups).mapError fun r => .json r.fault
  let slices ← (RawSlice.toSlices raw).mapError .inconsistent
  let counters ← ((Codec.list (Counter.codec .float)).read counters).mapError fun r => .json r.fault
  (checkTraces ⟨slices, groups⟩ counters).mapError .inconsistent
  .ok ⟨⟨slices, groups⟩, counters⟩

theorem ofValue_eq_assemble {members : List (String × Value)} {slices groups counters : Value}
    (hslices : findSlices members = pure (some slices, some groups))
    (hcounters : section? counterSections members = some counters) :
    (ofValue (.object members)).outcome = (assemble slices groups counters, []) := by
  rw [ofValue, hslices, readCounters, hcounters, pure_bind]
  apply Warned.run_ofExcept_bind
  intro raw
  apply Warned.run_ofExcept_bind
  intro groups
  apply Warned.run_ofExcept_bind
  intro slices
  apply Warned.run_ofExcept_bind
  intro counters
  apply Warned.run_ofExcept_bind
  intro _
  rfl

theorem assemble_eq_ok_iff {slices groups counters : Value} {capture : Capture Float} :
    assemble slices groups counters = .ok capture ↔ ∃ raw, (Codec.list RawSlice.codec).read slices = .ok raw ∧
      (Codec.list Group.codec).read groups = .ok capture.timeline.groups ∧
      RawSlice.toSlices raw = .ok capture.timeline.slices ∧
      (Codec.list (Counter.codec .float)).read counters = .ok capture.counters ∧
      checkTraces capture.timeline capture.counters = .ok () := by
  unfold assemble
  simp only [bind_eq_ok, mapError_eq_ok, Except.ok.injEq]
  constructor
  · rintro ⟨raw, hraw, groups, hgroups, slices, hslices, counters, hcounters, ⟨⟩, hcheck, rfl⟩
    exact ⟨raw, hraw, hgroups, hslices, hcounters, hcheck⟩
  · rintro ⟨raw, hraw, hgroups, hslices, hcounters, hcheck⟩
    exact ⟨raw, hraw, _, hgroups, _, hslices, _, hcounters, (), hcheck, rfl⟩

/-- The groups stand in the slice section or beside it; the sections go by any of their names, and the order of
the members is free. -/
inductive LaidOut (slices groups counters : List Value) : Value → Prop
  | nested {a b : String} {inner members : List (String × Value)} (ha : a ∈ sliceSections) (hb : b ∈ counterSections)
      (hinner : inner.Perm [("slices", .array slices), ("groups", .array groups)])
      (hmembers : members.Perm [(a, .object inner), (b, .array counters)]) :
      LaidOut slices groups counters (.object members)
  | flat {a b : String} {members : List (String × Value)} (ha : a ∈ sliceSections) (hb : b ∈ counterSections)
      (hmembers : members.Perm [(a, .array slices), ("groups", .array groups), (b, .array counters)]) :
      LaidOut slices groups counters (.object members)

theorem section?_perm {names : List String} {members members' : List (String × Value)}
    (hn : (members.map (·.1)).Nodup) (h : members.Perm members') : section? names members = section? names members' := by
  rw [section?, section?, funext (Pairs.get?_perm hn h)]

theorem findSlices_perm {members members' : List (String × Value)} (hn : (members.map (·.1)).Nodup)
    (h : members.Perm members') : findSlices members = findSlices members' := by
  rw [findSlices, findSlices, Pairs.get?_perm hn h, section?_perm hn h]

theorem ofValue_laidOut {slices groups counters : List Value} {value : Value} (h : LaidOut slices groups counters value) :
    (ofValue value).outcome = (assemble (.array slices) (.array groups) (.array counters), []) := by
  cases h with
  | @nested a b inner members ha hb hinner hmembers =>
    have hkeys : ["slices", "groups"].Nodup := by decide
    have hinner' : (inner.map (·.1)).Nodup := (hinner.map _).nodup_iff.mpr hkeys
    have hsections : ∀ a ∈ sliceSections, ∀ b ∈ counterSections, [a, b].Nodup := by decide
    have hmembers' : (members.map (·.1)).Nodup := (hmembers.map _).nodup_iff.mpr (hsections a ha b hb)
    apply ofValue_eq_assemble
    · have hfound : findSlices members = pure (Pairs.get? "slices" inner, Pairs.get? "groups" inner) := by
        rw [findSlices_perm hmembers' hmembers]
        fin_cases ha <;> fin_cases hb <;> rfl
      rw [hfound, Pairs.get?_perm hinner' hinner, Pairs.get?_perm hinner' hinner]
      rfl
    · rw [section?_perm hmembers' hmembers]
      fin_cases ha <;> fin_cases hb <;> rfl
  | @flat a b members ha hb hmembers =>
    have hsections : ∀ a ∈ sliceSections, ∀ b ∈ counterSections, [a, "groups", b].Nodup := by decide
    have hmembers' : (members.map (·.1)).Nodup := (hmembers.map _).nodup_iff.mpr (hsections a ha b hb)
    apply ofValue_eq_assemble
    · rw [findSlices_perm hmembers' hmembers]
      fin_cases ha <;> fin_cases hb <;> rfl
    · rw [section?_perm hmembers' hmembers]
      fin_cases ha <;> fin_cases hb <;> rfl

theorem assemble_respelt {slices slices' groups groups' counters counters' : List Value}
    (hslices : List.Forall₂ (Respelt RawSlice.spellings) slices slices')
    (hgroups : List.Forall₂ (Respelt Group.spellings) groups groups')
    (hcounters : List.Forall₂ (Respelt Counter.spellings) counters counters') {capture : Capture Float} :
    assemble (.array slices) (.array groups) (.array counters) = .ok capture ↔
      assemble (.array slices') (.array groups') (.array counters') = .ok capture := by
  have hslices' := RawSlice.codec.read_array_congr (hslices.imp fun _ _ h _ => RawSlice.read_respelt h)
  have hgroups' := Group.codec.read_array_congr (hgroups.imp fun _ _ h _ => Group.read_respelt h)
  have hcounters' := (Counter.codec .float).read_array_congr (hcounters.imp fun _ _ h _ => Counter.read_respelt h)
  simp only [assemble_eq_ok_iff, hslices', hgroups', hcounters']

theorem read_alike {slices groups counters : List Value} {value : Value} (h : LaidOut slices groups counters value) :
    (∀ value', LaidOut slices groups counters value' → (ofValue value').outcome = (ofValue value).outcome) ∧
    ∀ slices' groups' counters' value', LaidOut slices' groups' counters' value' →
      List.Forall₂ (Respelt RawSlice.spellings) slices slices' →
      List.Forall₂ (Respelt Group.spellings) groups groups' →
      List.Forall₂ (Respelt Counter.spellings) counters counters' →
      ∀ capture ws, (ofValue value).outcome = (.ok capture, ws) → (ofValue value').outcome = (.ok capture, ws) := by
  rw [ofValue_laidOut h]
  refine ⟨fun value' h' => ofValue_laidOut h', ?_⟩
  intro slices' groups' counters' value' h' hslices hgroups hcounters capture ws hread
  obtain ⟨hcapture, hws⟩ := Prod.mk.inj hread
  rw [ofValue_laidOut h', (assemble_respelt hslices hgroups hcounters).mp hcapture, hws]

def Reworded.slice (group ts dur : String) : Value :=
  .object [(dur, .number (.integer 7)), (group, .number (.integer 1)), (ts, .number (.integer 5))]

def Reworded.group (id command : String) : Value :=
  .object [(command, .array [.number (.integer 0)]), (id, .number (.integer 1)), ("label", .string "draw")]

def Reworded.counter (operator : String) : Value :=
  .object [("name", .string "Reads"), (operator, .string "summation"),
    ("timestamps", .array [.number (.integer 4), .number (.integer 9)]),
    ("values", .array [.number (.integer 0), .number (.real 0.5)])]

def Reworded.nested : Value :=
  .object [("counters", .array [Reworded.counter "operator"]),
    ("slices", .object [("groups", .array [Reworded.group "id" "command_index"]),
      ("slices", .array [Reworded.slice "group_id" "ts" "dur"])])]

def Reworded.flat : Value :=
  .object [("gpuCounters", .array [Reworded.counter "op"]),
    ("gpu_slices", .array [Reworded.slice "groupId" "timestamp" "duration"]),
    ("groups", .array [Reworded.group "group_id" "indices"])]

def Reworded.capture : Capture Float :=
  ⟨⟨[⟨1, 0, 5, 7⟩], [⟨1, ⟨[0]⟩⟩]⟩, [⟨"Reads", "", #[4, 9], #[0, 0.5], .summation⟩]⟩

theorem reworded_alike : (ofValue Reworded.nested).outcome = (.ok Reworded.capture, []) ∧
    (ofValue Reworded.flat).outcome = (.ok Reworded.capture, []) := by
  have hread : (ofValue Reworded.nested).outcome = (.ok Reworded.capture, []) := rfl
  have hnested : LaidOut [Reworded.slice "group_id" "ts" "dur"] [Reworded.group "id" "command_index"]
      [Reworded.counter "operator"] Reworded.nested :=
    .nested (by decide) (by decide) (.swap _ _ _) (.swap _ _ _)
  have hflat : LaidOut [Reworded.slice "groupId" "timestamp" "duration"] [Reworded.group "group_id" "indices"]
      [Reworded.counter "op"] Reworded.flat :=
    .flat (by decide) (by decide) (List.perm_append_singleton _ [_, _]).symm
  have hslice : Respelt RawSlice.spellings (Reworded.slice "group_id" "ts" "dur")
      (Reworded.slice "groupId" "timestamp" "duration") := by
    refine .object ?_ (.refl _)
    exact .cons ⟨by decide, rfl⟩ (.cons ⟨by decide, rfl⟩ (.cons ⟨by decide, rfl⟩ .nil))
  have hgroup : Respelt Group.spellings (Reworded.group "id" "command_index") (Reworded.group "group_id" "indices") := by
    refine .object ?_ (.refl _)
    exact .cons ⟨by decide, rfl⟩ (.cons ⟨by decide, rfl⟩ (.cons ⟨by decide, rfl⟩ .nil))
  have hcounter : Respelt Counter.spellings (Reworded.counter "operator") (Reworded.counter "op") := by
    refine .object ?_ (.refl _)
    exact .cons ⟨by decide, rfl⟩ (.cons ⟨by decide, rfl⟩ (.cons ⟨by decide, rfl⟩ (.cons ⟨by decide, rfl⟩ .nil)))
  obtain ⟨-, hrespelt⟩ := read_alike hnested
  exact ⟨hread, hrespelt _ _ _ _ hflat (.cons hslice .nil) (.cons hgroup .nil) (.cons hcounter .nil) _ _ hread⟩

end Capture

end GpuProfile
