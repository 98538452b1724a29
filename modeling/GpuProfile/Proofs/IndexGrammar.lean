import GpuProfile.Proofs.WrittenRecords
import GpuProfile.CommandIndex

namespace GpuProfile

namespace Text

theorem dropWhile_eq_iff {p : Char → Bool} {cs rest : List Char} : cs.dropWhile p = rest ↔
    (∃ before, (∀ c ∈ before, p c) ∧ cs = before ++ rest) ∧ ∀ c ∈ rest.head?, p c = false := by
  constructor
  · rintro rfl
    refine ⟨⟨cs.takeWhile p, fun c hc => List.mem_takeWhile_imp hc, List.takeWhile_append_dropWhile.symm⟩, fun c hc => ?_⟩
    have hfirst := List.head?_dropWhile_not p cs
    rwa [hc] at hfirst
  · rintro ⟨⟨before, hbefore, rfl⟩, hfirst⟩
    rw [List.dropWhile_append_of_pos hbefore]
    cases rest with
    | nil => rfl
    | cons c rest => rw [List.dropWhile_cons, hfirst c rfl, if_neg Bool.false_ne_true]

/-- White space around `core` makes up the text, and `core` has none at its ends. -/
structure StripsTo (cs core : List Char) : Prop where
  around : ∃ before after, (∀ c ∈ before, isBlank c) ∧ (∀ c ∈ after, isBlank c) ∧ cs = before ++ core ++ after
  first : ∀ c ∈ core.head?, isBlank c = false
  last : ∀ c ∈ core.getLast?, isBlank c = false

theorem stripsTo_nil_iff {cs : List Char} : StripsTo cs [] ↔ ∀ c ∈ cs, isBlank c := by
  constructor
  · rintro ⟨⟨before, after, hbefore, hafter, rfl⟩, -, -⟩ c hc
    rw [List.append_nil, List.mem_append] at hc
    exact hc.elim (hbefore c) (hafter c)
  · intro h
    exact ⟨⟨cs, [], h, by simp, by simp⟩, by simp, by simp⟩

theorem stripsTo_self {cs : List Char} (h : ∀ c ∈ cs, isBlank c = false) : StripsTo cs cs where
  around := ⟨[], [], by simp, by simp, by simp⟩
  first c hc := h c (List.mem_of_mem_head? hc)
  last c hc := h c (List.mem_of_getLast? hc)

theorem StripsTo.mem {cs core : List Char} (h : StripsTo cs core) {c : Char} (hc : c ∈ cs) : isBlank c ∨ c ∈ core := by
  obtain ⟨before, after, hbefore, hafter, rfl⟩ := h.around
  rw [List.mem_append, List.mem_append] at hc
  rcases hc with (hc | hc) | hc
  · exact .inl (hbefore c hc)
  · exact .inr hc
  · exact .inl (hafter c hc)

-- Trimming drops white space from the front twice, the second time from the front of the reversed text.
theorem trim_eq_iff {cs core : List Char} : trim cs = core ↔ StripsTo cs core := by
  rw [trim, List.reverse_eq_iff, dropWhile_eq_iff, List.head?_reverse]
  constructor
  · rintro ⟨⟨after, hafter, h⟩, hlast⟩
    rw [List.reverse_eq_iff, List.reverse_append, List.reverse_reverse, dropWhile_eq_iff] at h
    obtain ⟨⟨before, hbefore, rfl⟩, hfirst⟩ := h
    refine ⟨⟨before, after.reverse, hbefore, by simpa using hafter, by simp⟩, fun c hc => hfirst c ?_, hlast⟩
    rw [List.head?_append, hc]
    rfl
  · intro h
    refine ⟨?_, h.last⟩
    obtain ⟨before, after, hbefore, hafter, rfl⟩ := h.around
    cases core with
    | nil =>
      refine ⟨[], by simp, ?_⟩
      have hblank : ∀ c ∈ before ++ [] ++ after, isBlank c := stripsTo_nil_iff.mp h
      simpa [List.dropWhile_eq_nil_iff] using hblank
    | cons c core =>
      refine ⟨after.reverse, by simpa using hafter, ?_⟩
      rw [← List.reverse_append, List.reverse_inj, dropWhile_eq_iff]
      exact ⟨⟨before, hbefore, List.append_assoc _ _ _⟩, h.first⟩

theorem pieces_eq_splitOn (separator : Char) (cs : List Char) : pieces separator cs = cs.splitOn separator := by
  induction cs with
  | nil => rfl
  | cons c cs ih =>
    rw [pieces, ih, List.splitOn_cons_eq_if_modifyHead]
    obtain ⟨piece, rest, he⟩ := List.exists_cons_of_ne_nil (List.splitOn_ne_nil separator cs)
    simp [he]

structure Digits (cs : List Char) (n : ℕ) : Prop where
  nonempty : cs ≠ []
  digits : ∀ c ∈ cs, c.isDigit
  value : Nat.ofDigitChars 10 cs 0 = n

inductive Denotes : List Char → ℕ → Prop
  | unsigned {cs : List Char} {n : ℕ} (h : Digits cs n) : Denotes cs n
  | signed {cs : List Char} {n : ℕ} (h : Digits cs n) : Denotes ('+' :: cs) n

theorem Denotes.mem {cs : List Char} {n : ℕ} (h : Denotes cs n) {c : Char} (hc : c ∈ cs) : c = '+' ∨ c.isDigit := by
  cases h with
  | unsigned h => exact .inr (h.digits c hc)
  | signed h => exact (List.mem_cons.mp hc).imp_right (h.digits c)

theorem denotes_plus_iff {cs : List Char} {n : ℕ} : Denotes ('+' :: cs) n ↔ Digits cs n := by
  constructor
  · intro h
    cases h with
    | unsigned h => exact absurd (h.digits '+' List.mem_cons_self) (by decide)
    | signed h => exact h
  · exact .signed

theorem denotes_iff_of_ne {cs : List Char} {n : ℕ} (h : ∀ rest, cs ≠ '+' :: rest) : Denotes cs n ↔ Digits cs n := by
  constructor
  · intro hd
    cases hd with
    | unsigned hd => exact hd
    | signed hd => exact absurd rfl (h _)
  · exact .unsigned

theorem readDigits_eq_ok_iff {cs : List Char} {n m : ℕ} (hn : n < UInt64.size) : readDigits cs n = .ok m ↔
    (∀ c ∈ cs, c.isDigit) ∧ Nat.ofDigitChars 10 cs n = m ∧ m < UInt64.size := by
  induction cs generalizing n with
  | nil =>
    simp only [readDigits, Except.ok.injEq, List.not_mem_nil, false_implies, implies_true, Nat.ofDigitChars_nil, true_and]
    exact ⟨fun he => ⟨he, he ▸ hn⟩, And.left⟩
  | cons c cs ih =>
    rw [readDigits, List.forall_mem_cons, Nat.ofDigitChars_cons, Nat.mul_comm 10]
    by_cases hc : c.isDigit
    · by_cases hnext : n * 10 + (c.toNat - '0'.toNat) < UInt64.size
      · simp only [hc, hnext, if_true, ih hnext, true_and]
      · have hlarge := Json.le_ofDigitChars cs (n * 10 + (c.toNat - '0'.toNat))
        simp only [hc, hnext, if_true, if_false, reduceCtorEq, true_and, false_iff]
        rintro ⟨-, rfl, hm⟩
        exact hnext (hlarge.trans_lt hm)
    · simp [hc]

theorem readDigits_zero_eq_ok_iff {cs : List Char} (h : cs ≠ []) {n : ℕ} :
    readDigits cs 0 = .ok n ↔ Digits cs n ∧ n < UInt64.size := by
  rw [readDigits_eq_ok_iff (by decide)]
  constructor
  · rintro ⟨hd, hv, hn⟩
    exact ⟨⟨h, hd, hv⟩, hn⟩
  · rintro ⟨hd, hn⟩
    exact ⟨hd.digits, hd.value, hn⟩

theorem readNatural_eq_ok_iff {cs : List Char} {n : ℕ} :
    readNatural cs = .ok n ↔ Denotes cs n ∧ n < UInt64.size := by
  have hnone : ∀ {m}, ¬Digits [] m := fun h => h.nonempty rfl
  unfold readNatural
  split
  · simp [denotes_iff_of_ne, hnone]
  · simp [denotes_plus_iff, hnone]
  · next rest hne =>
    rw [readDigits_zero_eq_ok_iff (by simpa using hne), denotes_plus_iff]
  · next hnil _ hplus =>
    rw [readDigits_zero_eq_ok_iff (by simpa using hnil), denotes_iff_of_ne (by simpa using hplus)]

end Text

namespace CommandIndex

open Text

def Spells (piece : List Char) (part : UInt64) : Prop :=
  ∃ core, StripsTo piece core ∧ Denotes core part.toNat

theorem spells_iff {piece : List Char} {part : UInt64} : Spells piece part ↔ Denotes (trim piece) part.toNat := by
  constructor
  · rintro ⟨core, hcore, h⟩
    rwa [trim_eq_iff.mpr hcore]
  · intro h
    exact ⟨trim piece, trim_eq_iff.mp rfl, h⟩

theorem Spells.comma_notMem {piece : List Char} {part : UInt64} (h : Spells piece part) : ',' ∉ piece := by
  obtain ⟨core, hcore, h⟩ := h
  intro hc
  rcases hcore.mem hc with hblank | hmem
  · exact absurd hblank (by decide)
  · rcases h.mem hmem with he | hdigit
    · exact absurd he (by decide)
    · exact absurd hdigit (by decide)

theorem readParts_eq_ok_iff {pieces : List (List Char)} {parts : List UInt64} :
    readParts pieces = .ok parts ↔ List.Forall₂ Spells pieces parts := by
  induction pieces generalizing parts with
  | nil => simp [readParts, eq_comm]
  | cons piece pieces ih =>
    simp only [readParts, Json.bind_eq_ok, readNatural_eq_ok_iff, Except.ok.injEq, ih, List.forall₂_cons_left_iff]
    constructor
    · rintro ⟨n, ⟨hn, hsize⟩, rest, hrest, rfl⟩
      have hword : n.toUInt64.toNat = n := Nat.mod_eq_of_lt hsize
      exact ⟨n.toUInt64, rest, spells_iff.mpr (by rwa [hword]), hrest, rfl⟩
    · rintro ⟨part, rest, hpart, hrest, rfl⟩
      refine ⟨part.toNat, ⟨spells_iff.mp hpart, part.toNat_lt_size⟩, rest, hrest, ?_⟩
      rw [Nat.toUInt64_eq, UInt64.ofNat_toNat]

theorem ofText_eq_ok_iff_readParts {s : String} {x : CommandIndex} : ofText s = .ok x ↔
    trim s.toList = [] ∧ x.parts = [] ∨ readParts (pieces ',' (trim s.toList)) = .ok x.parts := by
  cases x with
  | mk parts =>
    rw [ofText]
    split
    · next h =>
      have herror : readParts (pieces ',' []) ≠ .ok parts := by
        rw [show readParts (pieces ',' []) = .error .empty from rfl]
        exact nofun
      simp [h, herror, eq_comm]
    · next hne =>
      have hsome : trim s.toList ≠ [] := hne
      simp [hsome, Json.mapError_eq_ok, Json.map_eq_ok]

/-- White space alone is read as the empty index. Any other text is read as an index just when, without the white
space around it, it consists of numbers between commas; these are the parts of the index. -/
theorem reads_numbers_between_commas (s : String) (x : CommandIndex) : ofText s = .ok x ↔
    (∀ c ∈ s.toList, isBlank c) ∧ x.parts = [] ∨
    ∃ core pieces, StripsTo s.toList core ∧ pieces ≠ [] ∧ core = [','].intercalate pieces ∧
      List.Forall₂ Spells pieces x.parts := by
  rw [ofText_eq_ok_iff_readParts, trim_eq_iff, stripsTo_nil_iff, readParts_eq_ok_iff, pieces_eq_splitOn]
  apply or_congr Iff.rfl
  constructor
  · intro h
    exact ⟨trim s.toList, _, trim_eq_iff.mp rfl, List.splitOn_ne_nil _ _, (List.intercalate_splitOn ',').symm, h⟩
  · rintro ⟨core, pieces, hcore, hne, rfl, h⟩
    have hcomma : ∀ piece ∈ pieces, ',' ∉ piece :=
      ((List.forall₂_and_left _ _).mp (h.imp fun _ _ hpart => ⟨hpart.comma_notMem, hpart⟩)).1
    rwa [trim_eq_iff.mpr hcore, List.splitOn_intercalate ',' hcomma hne]

example : ofText "\t+007 , 18446744073709551615 " = .ok ⟨[7, 18446744073709551615]⟩ := by decide

example : ofText "1,,2" = .error ⟨"1,,2", .empty⟩ := by decide

end CommandIndex

end GpuProfile
