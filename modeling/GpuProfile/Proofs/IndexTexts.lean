import GpuProfile.Proofs.IndexGrammar

namespace GpuProfile

namespace Text

theorem not_isBlank_of_isDigit {c : Char} (h : c.isDigit) : isBlank c = false := by
  have hrange := Char.isDigit_iff_toNat.mp h
  simp only [Char.reduceToNat] at hrange
  simp only [isBlank, decide_eq_false_iff_not]
  omega

theorem mem_intercalate {separator c : Char} {pieces : List (List Char)} (h : c ∈ [separator].intercalate pieces) :
    c = separator ∨ ∃ piece ∈ pieces, c ∈ piece := by
  induction pieces with
  | nil => simp at h
  | cons piece rest ih =>
    cases rest with
    | nil => exact .inr ⟨piece, List.mem_cons_self, by simpa using h⟩
    | cons next rest =>
      rw [List.intercalate_cons_cons, List.append_assoc, List.mem_append, List.singleton_append, List.mem_cons] at h
      rcases h with hc | rfl | hc
      · exact .inr ⟨piece, List.mem_cons_self, hc⟩
      · exact .inl rfl
      · exact (ih hc).imp_right fun ⟨p, hp, hcp⟩ => ⟨p, List.mem_cons_of_mem _ hp, hcp⟩

theorem digits_toDigits (n : ℕ) : Digits (Nat.toDigits 10 n) n where
  nonempty := Nat.toDigits_ne_nil
  digits _ hc := Json.isDigit_of_mem_toDigits hc
  value := Nat.ofDigitChars_ten_toDigits

end Text

namespace CommandIndex

open Text

def numerals (x : CommandIndex) : List (List Char) := x.parts.map fun part => Nat.toDigits 10 part.toNat

theorem toList_text (x : CommandIndex) : x.text.toList = [','].intercalate x.numerals := by
  rw [text, String.toList_intercalate, List.map_map]
  congr 1
  apply List.map_congr_left
  intro part _
  rw [Function.comp_apply, Nat.toString_eq_ofList_toDigits, String.toList_ofList]

theorem isDigit_of_mem_numerals {x : CommandIndex} {numeral : List Char} (h : numeral ∈ x.numerals) {c : Char}
    (hc : c ∈ numeral) : c.isDigit := by
  obtain ⟨part, -, rfl⟩ := List.mem_map.mp h
  exact Json.isDigit_of_mem_toDigits hc

theorem not_isBlank_of_mem_text {x : CommandIndex} {c : Char} (h : c ∈ x.text.toList) : isBlank c = false := by
  rw [toList_text] at h
  rcases mem_intercalate h with rfl | ⟨numeral, hnumeral, hc⟩
  · decide
  · exact not_isBlank_of_isDigit (isDigit_of_mem_numerals hnumeral hc)

theorem spells_numerals (x : CommandIndex) : List.Forall₂ Spells x.numerals x.parts := by
  rw [numerals, List.forall₂_map_left_iff, List.forall₂_same]
  intro part _
  refine ⟨_, stripsTo_self fun c hc => ?_, .unsigned (digits_toDigits _)⟩
  exact not_isBlank_of_isDigit (Json.isDigit_of_mem_toDigits hc)

theorem ofText_text (x : CommandIndex) : ofText x.text = .ok x := by
  have hstrips : trim x.text.toList = x.text.toList :=
    trim_eq_iff.mpr (stripsTo_self fun _ hc => not_isBlank_of_mem_text hc)
  rw [ofText_eq_ok_iff_readParts, hstrips, toList_text]
  by_cases h : x.parts = []
  · exact .inl ⟨by rw [numerals, h]; rfl, h⟩
  · right
    have hcomma : ∀ numeral ∈ x.numerals, ',' ∉ numeral := fun numeral hn hc =>
      absurd (isDigit_of_mem_numerals hn hc) (by decide)
    have hne : x.numerals ≠ [] := by simpa [numerals] using h
    rw [readParts_eq_ok_iff, pieces_eq_splitOn, List.splitOn_intercalate ',' hcomma hne]
    exact x.spells_numerals

theorem texts_name_indices (x y : CommandIndex) (s : String) : ofText x.text = .ok x ∧ (x.text = y.text ↔ x = y) ∧
    (ofText s >>= fun z => ofText z.text) = ofText s := by
  refine ⟨ofText_text x, ⟨fun h => ?_, fun h => h ▸ rfl⟩, ?_⟩
  · have hread := ofText_text y
    rw [← h, ofText_text x] at hread
    exact Except.ok.inj hread
  · simp only [ofText_text]
    exact bind_pure _

end CommandIndex

end GpuProfile
