import GpuProfile.Proofs.WrittenNumerals
import GpuProfile.Decimal.Shortest

namespace GpuProfile.Decimal

open Json

theorem mantissa_lt (x : Float) : (Binary.ofFloat x).mantissa < 2 ^ 53 := by
  have hlt : x.toBits.toNat % Nat.pow 2 52 < 2 ^ 52 := Nat.mod_lt _ (by decide)
  have hpow : Nat.pow 2 52 = 2 ^ 52 := rfl
  simp only [Binary.ofFloat]
  split <;> omega

theorem low_pos {b : Binary} (h : b.mantissa ≠ 0) : 0 < (Range.ofBinary b).low := by
  have hup : 0 < Nat.pow 2 (b.exponent - 2).toNat := Nat.pow_pos (by decide)
  simp only [Range.ofBinary]
  refine Nat.mul_pos ?_ hup
  split <;> omega

theorem hit?_ne_zero {r : Range} (h : 0 < r.low) {exponent : ℤ} {digits : ℕ} (hd : r.hit? exponent = some digits) :
    digits ≠ 0 := by
  have hfiner : 0 < Nat.pow 10 (-exponent).toNat := Nat.pow_pos (by decide)
  have hlow : 0 < r.low * Nat.pow 10 (-exponent).toNat := Nat.mul_pos h hfiner
  have hzero : (r.onGrid exponent).1.contains 0 = false := by
    have hout : ¬r.low * Nat.pow 10 (-exponent).toNat ≤ 0 := by omega
    simp only [Range.onGrid, Range.contains, hout, Nat.not_lt_zero, false_and, decide_false, ite_self]
  rintro rfl
  unfold Range.hit? at hd
  dsimp only at hd
  split at hd
  · cases hd
  · next hbelow _ =>
    rw [Option.some.inj hd, Nat.zero_mul, hzero] at hbelow
    cases hbelow
  · cases hd
  · next hbelow _ =>
    split at hd
    · rw [Option.some.inj hd, Nat.zero_mul, hzero] at hbelow
      cases hbelow
    · cases hd

-- When all grids have been tried the digits are cut off, which leaves none of a number below one.
theorem search_digits {r : Range} (h : 0 < r.low) (tries : ℕ) (exponent : ℤ) :
    (r.search tries exponent).digits ≠ 0 ∨ r.search tries exponent = ⟨r.value / r.scale, exponent - tries⟩ := by
  induction tries generalizing exponent with
  | zero => exact .inr (by simp [Range.search])
  | succ tries ih =>
    rw [Range.search]
    split
    · next digits hd => exact .inl (hit?_ne_zero h hd)
    · have he : exponent - 1 - (tries : ℤ) = exponent - (tries + 1 : ℕ) := by omega
      rw [← he]
      exact ih (exponent - 1)

theorem exponent_of_digits_eq_zero {b : Binary} (hm : b.mantissa ≠ 0) (hlt : b.mantissa < 2 ^ 53)
    (h : (shortest b).digits = 0) : (shortest b).exponent ≤ 0 := by
  obtain hne | he := search_digits (low_pos hm) 22 ((b.exponent + (Nat.log2 b.mantissa : ℕ)) * 30103 / 100000 + 2)
  · exact absurd h hne
  · have hlog : Nat.log2 b.mantissa < 53 := (Nat.log2_lt hm).mpr hlt
    have hdigits : (Range.ofBinary b).value / (Range.ofBinary b).scale = 0 := by
      rw [← h, shortest, he]
    have hexponent : (shortest b).exponent = (b.exponent + (Nat.log2 b.mantissa : ℕ)) * 30103 / 100000 + 2 - 22 := by
      rw [shortest, he]
      rfl
    by_contra hpos
    have hstep : (-(b.exponent - 2)).toNat = 0 := by omega
    have hup : 0 < Nat.pow 2 (b.exponent - 2).toNat := Nat.pow_pos (by decide)
    have hvalue : 0 < 4 * b.mantissa * Nat.pow 2 (b.exponent - 2).toNat := Nat.mul_pos (by omega) hup
    simp only [Range.ofBinary, hstep] at hdigits
    rw [show Nat.pow 2 0 = 1 from rfl, Nat.div_one] at hdigits
    omega

def padded (digits : List Char) (n : ℕ) : List Char :=
  digits.take n ++ List.replicate (n - (digits.take n).length) '0'

def pointedNumeral (negative : Bool) (digits : List Char) (places : ℤ) : Numeral :=
  if places ≤ 0 then ⟨negative, ['0'], List.replicate (-places).toNat '0' ++ digits, none⟩
  else
    let rest := digits.drop places.toNat
    ⟨negative, padded digits places.toNat, if rest.isEmpty then ['0'] else rest, none⟩

def numeral (x : Float) : Numeral :=
  let b := Binary.ofFloat x
  if b.mantissa = 0 then ⟨b.negative, ['0'], ['0'], none⟩
  else
    let s := shortest b
    let digits := Nat.toDigits 10 s.digits
    let power := s.exponent + (digits.length : ℕ) - 1
    if -5 ≤ power ∧ power < 16 then pointedNumeral b.negative digits (power + 1)
    else ⟨b.negative, digits.take 1, digits.drop 1, some power⟩

theorem spell_positional (negative : Bool) (whole : List Char) {fraction : List Char} (h : fraction ≠ []) :
    (⟨negative, whole, fraction, none⟩ : Numeral).spell =
      (if negative then ['-'] else []) ++ (whole ++ '.' :: fraction) := by
  simp [Numeral.spell, Numeral.fractionText, Numeral.powerText, h]

theorem spell_pointedNumeral (negative : Bool) {digits : List Char} (hne : digits ≠ []) (places : ℤ) :
    (pointedNumeral negative digits places).spell =
      (if negative then ['-'] else []) ++ pointed digits places := by
  unfold pointedNumeral pointed
  split
  · exact spell_positional negative ['0'] (by simp [hne])
  · dsimp only
    split
    · exact spell_positional negative _ (by simp)
    · next hrest => exact spell_positional negative _ (by simpa using hrest)

theorem spell_scientific (negative : Bool) (digits : List Char) (power : ℤ) :
    (⟨negative, digits.take 1, digits.drop 1, some power⟩ : Numeral).spell =
      (if negative then ['-'] else []) ++ scientific digits power := by
  simp [Numeral.spell, Numeral.fractionText, Numeral.powerText, scientific]

theorem toList_shortText (x : Float) : (shortText x).toList = (numeral x).spell := by
  unfold shortText numeral
  dsimp only
  split
  · rw [String.toList_ofList]
    exact (spell_positional _ ['0'] (by simp)).symm
  · rw [String.toList_ofList, apply_ite Numeral.spell, spell_pointedNumeral _ Nat.toDigits_ne_nil, spell_scientific]
    exact apply_ite (_ ++ ·) _ _ _

theorem length_padded (digits : List Char) (n : ℕ) : (padded digits n).length = n := by
  rw [padded, List.length_append, List.length_replicate, List.length_take]
  omega

theorem isDigit_of_mem_padded {digits : List Char} (hd : ∀ c ∈ digits, c.isDigit) {n : ℕ} :
    ∀ c ∈ padded digits n, c.isDigit := by
  intro c hc
  rcases List.mem_append.mp hc with hc | hc
  · exact hd c (List.mem_of_mem_take hc)
  · rw [List.eq_of_mem_replicate hc]
    rfl

theorem padded_leading {digits : List Char} (hne : digits ≠ []) {n : ℕ} (h : n ≤ 1 ∨ digits.head? ≠ some '0')
    (c : Char) (rest : List Char) : padded digits n ≠ '0' :: c :: rest := by
  intro he
  have hlength := length_padded digits n
  rw [he, List.length_cons, List.length_cons] at hlength
  obtain ⟨d, ds, rfl⟩ := List.exists_cons_of_ne_nil hne
  obtain ⟨m, rfl⟩ := Nat.exists_eq_succ_of_ne_zero (show n ≠ 0 by omega)
  rw [padded, List.take_succ_cons, List.cons_append] at he
  rcases h with h | h
  · omega
  · exact h (by rw [(List.cons.inj he).1]; rfl)

theorem sound_pointedNumeral (negative : Bool) {digits : List Char} (hd : ∀ c ∈ digits, c.isDigit)
    (hne : digits ≠ []) {places : ℤ} (hlead : places ≤ 1 ∨ digits.head? ≠ some '0') :
    (pointedNumeral negative digits places).Sound := by
  unfold pointedNumeral
  split
  · refine ⟨by simp, by simp, by simp, fun c hc => ?_⟩
    rcases List.mem_append.mp hc with hc | hc
    · rw [List.eq_of_mem_replicate hc]
      rfl
    · exact hd c hc
  · next hplaces =>
    have hwhole := length_padded digits places.toNat
    refine ⟨isDigit_of_mem_padded hd, fun hnil => ?_, padded_leading hne (hlead.imp_left (by omega)), fun c hc => ?_⟩
    · rw [show padded digits places.toNat = [] from hnil, List.length_nil] at hwhole
      omega
    · dsimp only at hc
      split at hc
      · rw [List.mem_singleton.mp hc]
        rfl
      · exact hd c (List.mem_of_mem_drop hc)

theorem sound_numeral (x : Float) : (numeral x).Sound := by
  unfold numeral
  dsimp only
  split
  · exact ⟨by simp, by simp, by simp, by simp⟩
  · next hm =>
    have hdigits : ∀ c ∈ Nat.toDigits 10 (shortest (Binary.ofFloat x)).digits, c.isDigit :=
      fun _ hc => isDigit_of_mem_toDigits hc
    split
    · refine sound_pointedNumeral _ hdigits Nat.toDigits_ne_nil ?_
      by_cases hz : (shortest (Binary.ofFloat x)).digits = 0
      · have hexponent := exponent_of_digits_eq_zero hm (mantissa_lt x) hz
        rw [hz, Nat.toDigits_zero, List.length_singleton]
        exact .inl (by omega)
      · obtain ⟨d, ds, hd, hne⟩ := toDigits_head hz
        rw [hd]
        exact .inr fun he => hne (Option.some.inj he)
    · obtain ⟨d, ds, hd⟩ := List.exists_cons_of_ne_nil
        (Nat.toDigits_ne_nil (b := 10) (n := (shortest (Binary.ofFloat x)).digits))
      rw [hd] at hdigits ⊢
      rw [List.forall_mem_cons] at hdigits
      exact ⟨by simpa using hdigits.1, by simp, by simp, hdigits.2⟩

theorem numeral_not_integer {x : Float} (h : (numeral x).fraction = []) : (numeral x).power ≠ none := by
  revert h
  unfold numeral
  dsimp only
  split
  · simp
  · split
    · unfold pointedNumeral
      split
      · simp [Nat.toDigits_ne_nil]
      · dsimp only
        split <;> simp_all
    · simp

end GpuProfile.Decimal
