import GpuProfile.Proofs.WrittenRecords
import GpuProfile.Proofs.LeafValues
import GpuProfile.Report

namespace GpuProfile

open Json

variable {α : Type}

theorem Operator.ofName_name (op : Operator) : ofName op.name = op := by
  cases op <;> decide

theorem Operator.faithful_codec : Operator.codec.Faithful := by
  intro x y
  rw [Operator.codec, Codec.yields_tag_iff, ofName_name]

theorem CommandIndex.faithful_codec : CommandIndex.codec.Faithful := Codec.faithful_uint64.list.map fun _ => rfl

theorem Metric.faithful_codec : Metric.codec.Faithful := by
  intro x y
  refine (Codec.yields_record_iff "Metric" ?_ _ _).trans ⟨?_, ?_⟩
  · simp [Fields.Distinct, Fields.names, Field.accepts, Fields.required]
  · rintro ⟨⟨id, name, unit, operator, _⟩, ⟨hid, hname, hunit, hoperator, -⟩, rfl⟩
    rw [← (Codec.faithful_int32 _ _).mp hid, ← (Codec.faithful_string _ _).mp hname,
      ← (Codec.faithful_string _ _).mp hunit, ← (Operator.faithful_codec _ _).mp hoperator]
  · rintro rfl
    exact ⟨(x.id, x.name, x.unit, x.operator, ()), ⟨(Codec.faithful_int32 _ _).mpr rfl,
      (Codec.faithful_string _ _).mpr rfl, (Codec.faithful_string _ _).mpr rfl,
      (Operator.faithful_codec _ _).mpr rfl, trivial⟩, rfl⟩

def Json.ReadsBack (x : Float) : Prop := Codec.float.readText ((Codec.float.write x).text .compact) = .ok x

theorem Json.readsBack_iff {x : Float} : ReadsBack x ↔ Codec.float.Yields x x :=
  Codec.float.readText_eq_ok_iff Value.Layout.blank_compact

example : ReadsBack 0.1 := readsBack_iff.mpr (Codec.yields_float_iff.mpr (by decide +kernel))

namespace Perf

def numbers (p : Perf α) : List α := [p.estimate, p.min, p.max]

theorem yields_codec_iff (value : Codec α) {p q : Perf α} :
    (codec value).Yields p q ↔ List.Forall₂ value.Yields p.numbers q.numbers := by
  refine (Codec.yields_record_iff "Perf" ?_ _ _).trans ⟨?_, ?_⟩
  · simp [Fields.Distinct, Fields.names, Field.accepts, Fields.required]
  · rintro ⟨⟨estimate, min, max, _⟩, ⟨hestimate, hmin, hmax, -⟩, rfl⟩
    exact .cons hestimate (.cons hmin (.cons hmax .nil))
  · rintro (_ | ⟨hestimate, _ | ⟨hmin, _ | ⟨hmax, -⟩⟩⟩)
    exact ⟨(q.estimate, q.min, q.max, ()), ⟨hestimate, hmin, hmax, trivial⟩, rfl⟩

end Perf

namespace Entry

def numbers (e : Entry α) : List α := e.values.values.flatMap Perf.numbers

def places (e : Entry α) : CommandIndex × List MetricId := (e.command, e.values.keys)

theorem yields_codec_iff (value : Codec α) {e e' : Entry α} : (codec value).Yields e e' ↔
    e.command = e'.command ∧ List.Forall₂ (Perf.codec value).PairYields e.values.toList e'.values.toList := by
  rw [← Codec.yields_integerMap_iff, ← CommandIndex.faithful_codec]
  refine (Codec.yields_record_iff "Entry" ?_ _ _).trans ⟨?_, ?_⟩
  · simp [Fields.Distinct, Fields.names, Field.accepts, Fields.required]
  · rintro ⟨⟨command, values, _⟩, ⟨hcommand, hvalues, -⟩, rfl⟩
    exact ⟨hcommand, hvalues⟩
  · rintro ⟨hcommand, hvalues⟩
    exact ⟨(e'.command, e'.values, ()), ⟨hcommand, hvalues, trivial⟩, rfl⟩

theorem places_of_yields {value : Codec α} {e e' : Entry α} (h : (codec value).Yields e e') :
    e.places = e'.places := by
  obtain ⟨hcommand, hvalues⟩ := (yields_codec_iff value).mp h
  have hkeys := List.rel_map (R := (Perf.codec value).PairYields) (P := Eq) (fun _ _ hp => hp.1) hvalues
  rw [List.forall₂_eq_eq_eq] at hkeys
  exact Prod.ext hcommand hkeys

theorem numbers_of_yields {value : Codec α} {e e' : Entry α} (h : (codec value).Yields e e') :
    List.Forall₂ value.Yields e.numbers e'.numbers := by
  obtain ⟨-, hvalues⟩ := (yields_codec_iff value).mp h
  have hvalues' : List.Forall₂ (Perf.codec value).Yields e.values.values e'.values.values :=
    List.rel_map (fun _ _ hp => hp.2) hvalues
  exact List.rel_flatMap hvalues' fun _ _ hq => (Perf.yields_codec_iff value).mp hq

theorem yields_self_iff (value : Codec α) {e : Entry α} :
    (codec value).Yields e e ↔ ∀ x ∈ e.numbers, value.Yields x x := by
  refine ⟨fun h => List.forall₂_same.mp (numbers_of_yields h), fun h => ?_⟩
  refine (yields_codec_iff value).mpr ⟨rfl, List.forall₂_same.mpr fun p hp => ⟨rfl, ?_⟩⟩
  refine (Perf.yields_codec_iff value).mpr (List.forall₂_same.mpr fun x hx => ?_)
  exact h x (List.mem_flatMap.mpr ⟨p.2, List.mem_map_of_mem hp, hx⟩)

end Entry

def Profile.numbers (p : Profile α) : List α := p.entries.flatMap Entry.numbers

namespace Report

theorem yields_codec_iff (value : Codec α) {r r' : Report α} : (codec value).Yields r r' ↔
    r.version = r'.version ∧ r.source = r'.source ∧ r.generatedAt = r'.generatedAt ∧
      r.profile.metrics = r'.profile.metrics ∧
      List.Forall₂ (Entry.codec value).Yields r.profile.entries r'.profile.entries := by
  rw [← Codec.yields_list_iff, ← Codec.faithful_string, ← Codec.faithful_string, ← Codec.faithful_string,
    ← Metric.faithful_codec.list]
  refine (Codec.yields_record_iff "CounterReport" ?_ _ _).trans ⟨?_, ?_⟩
  · simp [Fields.Distinct, Fields.names, Field.accepts, Fields.required]
  · rintro ⟨⟨version, source, generatedAt, metrics, entries, _⟩, ⟨hversion, hsource, hat, hmetrics, hentries, -⟩, rfl⟩
    exact ⟨hversion, hsource, hat, hmetrics, hentries⟩
  · rintro ⟨hversion, hsource, hat, hmetrics, hentries⟩
    exact ⟨(r'.version, r'.source, r'.generatedAt, r'.profile.metrics, r'.profile.entries, ()),
      ⟨hversion, hsource, hat, hmetrics, hentries, trivial⟩, rfl⟩

theorem yields_self_iff (value : Codec α) {r : Report α} :
    (codec value).Yields r r ↔ ∀ x ∈ r.profile.numbers, value.Yields x x := by
  rw [yields_codec_iff, List.forall₂_same]
  simp only [Entry.yields_self_iff, Profile.numbers, List.mem_flatMap, true_and]
  exact ⟨fun h x ⟨e, he, hx⟩ => h e he x hx, fun h e he x hx => h x ⟨e, he, hx⟩⟩

theorem ofText_eq_ok_iff {r r' : Report Float} : ofText r.text = .ok r' ↔ (codec .float).Yields r r' :=
  (codec .float).readText_eq_ok_iff Value.Layout.blank_indented

theorem numbers_of_ofText {r r' : Report Float} (h : ofText r.text = .ok r') :
    List.Forall₂ Codec.float.Yields r.profile.numbers r'.profile.numbers := by
  obtain ⟨-, -, -, -, hentries⟩ := (yields_codec_iff _).mp (ofText_eq_ok_iff.mp h)
  exact List.rel_flatMap hentries fun _ _ he => Entry.numbers_of_yields he

theorem finite_of_ofText {r r' : Report Float} (h : ofText r.text = .ok r') : ∀ x ∈ r.profile.numbers, x.isFinite := by
  have hboth := (numbers_of_ofText h).imp (S := fun x y => x.isFinite = true ∧ (Decimal.numeral x).double? = some y)
    fun _ _ hx => Codec.yields_float_iff.mp hx
  exact ((List.forall₂_and_left _ _).mp hboth).1

/-- The report of a profile is read back as it was written just if each of its numbers is. What else is read
differs from it in numbers alone, and nothing is read where one of them is not finite. -/
theorem reads_back (p : Profile Float) (source generatedAt : String) :
    (ofText (ofProfile p source generatedAt).text = .ok (ofProfile p source generatedAt) ↔
      ∀ x ∈ p.numbers, ReadsBack x) ∧
    ∀ r, ofText (ofProfile p source generatedAt).text = .ok r →
      r.version = schemaVersion ∧ r.source = source ∧ r.generatedAt = generatedAt ∧ r.profile.metrics = p.metrics ∧
      r.profile.entries.map Entry.places = p.entries.map Entry.places ∧ ∀ x ∈ p.numbers, x.isFinite := by
  refine ⟨?_, fun r h => ?_⟩
  · rw [ofText_eq_ok_iff, yields_self_iff]
    simp only [readsBack_iff]
    rfl
  · obtain ⟨hversion, hsource, hat, hmetrics, hentries⟩ := (yields_codec_iff _).mp (ofText_eq_ok_iff.mp h)
    have hplaces := List.rel_map (P := Eq) (fun _ _ he => Entry.places_of_yields he) hentries
    rw [List.forall₂_eq_eq_eq] at hplaces
    exact ⟨hversion.symm, hsource.symm, hat.symm, hmetrics.symm, hplaces.symm, finite_of_ofText h⟩

theorem readText_page (value : Codec Float) {r : Report Float} (hfinite : ∀ x ∈ r.profile.numbers, x.isFinite)
    (hread : ∀ x ∈ r.profile.numbers, x.isFinite → value.readText ((value.write x).text .compact) = .ok x) :
    (codec value).readText (((codec value).write r).text .indented) = .ok r := by
  rw [Codec.readText_eq_ok_iff _ Value.Layout.blank_indented, yields_self_iff]
  intro x hx
  rw [← Codec.readText_eq_ok_iff _ Value.Layout.blank_compact]
  exact hread x hx (hfinite x hx)

def Odd.report : Report Float where
  version := ""
  source := "traces\\\"a\".json \t\x01\x7f é 𝄞"
  generatedAt := "\n"
  profile := {
    metrics := [⟨-2147483648, "", "%", .unsupported⟩, ⟨-1, "Reads", "", .summation⟩]
    entries := [⟨⟨[]⟩, .empty⟩,
      ⟨⟨[0, 18446744073709551615]⟩, .ofList [(-1, ⟨0.1, -0.0, 5e-324⟩), (-7, ⟨-1, 1e300, 12345.678⟩)]⟩] }

theorem odd_read_back : Report.ofText Odd.report.text = .ok Odd.report := by
  have hnumbers : ∀ x ∈ Odd.report.profile.numbers, x.isFinite = true ∧ (Decimal.numeral x).double? = some x := by
    decide +kernel
  apply readText_page .float
  · intro x hx
    exact (hnumbers x hx).1
  · intro x hx _
    exact readsBack_iff.mpr (Codec.yields_float_iff.mpr (hnumbers x hx))

end Report

def Overflow.timeline : Timeline := ⟨[⟨1, 0, 5, 30⟩], [⟨1, ⟨[0]⟩⟩]⟩

def Overflow.bytes : Counter Float := ⟨"Bytes", "", #[10, 20, 30], #[0, 1.7e308, 1.7e308], .summation⟩

theorem overflow_unreadable : ∃ p, Profile.compute Overflow.timeline [Overflow.bytes] = .ok p ∧
    ∀ source generatedAt r, Report.ofText (Report.ofProfile p source generatedAt).text ≠ .ok r := by
  have hnumbers : (Profile.compute Overflow.timeline [Overflow.bytes]).toOption.map
      (fun p => p.numbers.all Float.isFinite) = some false := by decide +kernel
  obtain ⟨p, hp, hinfinite⟩ := Profile.ok_of_toOption_map hnumbers
  refine ⟨p, hp, fun source generatedAt r h => ?_⟩
  have hfinite := Report.finite_of_ofText h
  rw [← List.all_eq_true] at hfinite
  exact absurd (hinfinite.symm.trans hfinite) Bool.false_ne_true

end GpuProfile
