import Mathlib
import GpuProfile.Json.Numeral

namespace GpuProfile.Json

def Stops (p : Char → Bool) (cs : List Char) : Prop := ∀ c rest, cs = c :: rest → p c = false

theorem stops_nil (p : Char → Bool) : Stops p [] := by
  intro c rest h
  cases h

theorem stops_cons {p : Char → Bool} {c : Char} (h : p c = false) (cs : List Char) : Stops p (c :: cs) := by
  rintro d rest ⟨rfl, rfl⟩
  exact h

theorem Stops.mono {p q : Char → Bool} {cs : List Char} (h : Stops p cs) (hpq : ∀ c, q c → p c) : Stops q cs := by
  intro c rest hc
  have hp := h c rest hc
  cases hq : q c with
  | false => rfl
  | true => rw [hpq c hq] at hp; exact hp

def carriesOn (c : Char) : Bool := c.isDigit || c == '.' || c == 'e' || c == 'E'

theorem digitsOf_append {ds rest : List Char} (hd : ∀ c ∈ ds, c.isDigit) (hrest : Stops Char.isDigit rest) :
    digitsOf (ds ++ rest) = (ds, rest) := by
  rw [digitsOf, List.span_eq_takeWhile_dropWhile, List.takeWhile_append_of_pos hd, List.dropWhile_append_of_pos hd]
  cases rest with
  | nil => simp
  | cons c rest => simp [hrest c rest rfl]

namespace Numeral

def fractionText (fraction : List Char) : List Char := if fraction = [] then [] else '.' :: fraction

def powerText : Option ℤ → List Char
  | none => []
  | some power => 'e' :: (if power < 0 then '-' else '+') :: Nat.toDigits 10 power.natAbs

def spell (n : Numeral) : List Char :=
  (if n.negative then ['-'] else []) ++ n.whole ++ fractionText n.fraction ++ powerText n.power

structure Sound (n : Numeral) : Prop where
  whole : ∀ c ∈ n.whole, c.isDigit
  some_digit : n.whole ≠ []
  leading : ∀ c rest, n.whole ≠ '0' :: c :: rest
  fraction : ∀ c ∈ n.fraction, c.isDigit

end Numeral

theorem scanWhole_append {whole rest : List Char} (hd : ∀ c ∈ whole, c.isDigit) (hne : whole ≠ [])
    (hlead : ∀ c cs, whole ≠ '0' :: c :: cs) (hrest : Stops Char.isDigit rest) :
    scanWhole (whole ++ rest) = some (whole, rest) := by
  unfold scanWhole
  rw [digitsOf_append hd hrest]
  split
  · next h => exact absurd (Prod.mk.inj h).1 hne
  · next h => exact absurd (Prod.mk.inj h).1 (hlead _ _)
  · rfl

theorem scanFraction_append {fraction rest : List Char} (hd : ∀ c ∈ fraction, c.isDigit)
    (hrest : Stops (fun c => c.isDigit || c == '.') rest) :
    scanFraction (Numeral.fractionText fraction ++ rest) = some (fraction, rest) := by
  have hdigit : Stops Char.isDigit rest := hrest.mono fun c hc => by simp [hc]
  by_cases hne : fraction = []
  · subst hne
    rw [Numeral.fractionText, if_pos rfl, List.nil_append]
    unfold scanFraction
    split
    · next cs =>
      have hpoint := hrest '.' cs rfl
      simp at hpoint
    · rfl
  · rw [Numeral.fractionText, if_neg hne, List.cons_append, scanFraction, digitsOf_append hd hdigit]
    split
    · next h => exact absurd (Prod.mk.inj h).1 hne
    · rfl

theorem scanSign_sign (power : ℤ) (cs : List Char) :
    scanSign ((if power < 0 then '-' else '+') :: cs) = (decide (power < 0), cs) := by
  by_cases h : power < 0
  · rw [if_pos h, decide_eq_true h]
    rfl
  · rw [if_neg h, decide_eq_false h]
    rfl

theorem scanPower_append (power : ℤ) {rest : List Char} (hrest : Stops Char.isDigit rest) :
    scanPower (Numeral.powerText (some power) ++ rest) = some (some power, rest) := by
  have hdigits : digitsOf (Nat.toDigits 10 power.natAbs ++ rest) = (Nat.toDigits 10 power.natAbs, rest) :=
    digitsOf_append (fun c hc => Nat.isDigit_of_mem_toDigits (by decide) (by decide) hc) hrest
  have hsize : Nat.ofDigitChars 10 (Nat.toDigits 10 power.natAbs) 0 = power.natAbs :=
    Nat.ofDigitChars_toDigits (by decide) (by decide)
  rw [Numeral.powerText, List.cons_append, List.cons_append, scanPower, if_pos (.inl rfl), scanSign_sign]
  simp only [hdigits]
  split
  · next h => exact absurd (Prod.mk.inj h).1 Nat.toDigits_ne_nil
  · next h =>
    obtain ⟨rfl, rfl⟩ := Prod.mk.inj h
    rw [hsize]
    simp only [decide_eq_true_eq, Option.some.injEq, Prod.mk.injEq, and_true]
    split <;> omega

theorem scanPower_of_stops {rest : List Char} (hrest : Stops carriesOn rest) : scanPower rest = some (none, rest) := by
  unfold scanPower
  split
  · next c cs =>
    have hc := hrest c cs rfl
    simp only [carriesOn, Bool.or_eq_false_iff, beq_eq_false_iff_ne] at hc
    rw [if_neg (not_or.mpr ⟨hc.1.2, hc.2⟩)]
  · rfl

namespace Numeral

def scanMagnitude (negative : Bool) (cs : List Char) : Option (Numeral × List Char) := do
  let (whole, cs) ← scanWhole cs
  let (fraction, cs) ← scanFraction cs
  let (power, cs) ← scanPower cs
  some (⟨negative, whole, fraction, power⟩, cs)

theorem scan_minus (cs : List Char) : scan ('-' :: cs) = scanMagnitude true cs := rfl

theorem scan_of_stops {cs : List Char} (h : Stops (· == '-') cs) : scan cs = scanMagnitude false cs := by
  unfold scan
  split
  next negative magnitude heq =>
    split at heq
    · exact absurd (h '-' _ rfl) (by decide)
    · cases heq
      rfl

theorem scanMagnitude_append {n : Numeral} (h : n.Sound) {rest : List Char} (hrest : Stops carriesOn rest) :
    scanMagnitude n.negative (n.whole ++ (fractionText n.fraction ++ (powerText n.power ++ rest))) =
      some (n, rest) := by
  have hpower : scanPower (powerText n.power ++ rest) = some (n.power, rest) := by
    cases n.power with
    | none => exact scanPower_of_stops hrest
    | some power => exact scanPower_append power (hrest.mono fun c hc => by simp [carriesOn, hc])
  have hpoint : Stops (fun c => c.isDigit || c == '.') (powerText n.power ++ rest) := by
    cases n.power with
    | none =>
      refine hrest.mono fun c hc => ?_
      rw [carriesOn, hc]
      rfl
    | some power => exact stops_cons (by decide) _
  have hdigit : Stops Char.isDigit (fractionText n.fraction ++ (powerText n.power ++ rest)) := by
    by_cases hne : n.fraction = []
    · rw [fractionText, if_pos hne]
      exact hpoint.mono fun c hc => by simp [hc]
    · rw [fractionText, if_neg hne]
      exact stops_cons (by decide) _
  have hwhole := scanWhole_append h.whole h.some_digit h.leading hdigit
  have hfraction := scanFraction_append h.fraction hpoint
  simp only [scanMagnitude, hwhole, hfraction, hpower, Option.bind_eq_bind, Option.bind_some]

theorem scan_spell {n : Numeral} (h : n.Sound) {rest : List Char} (hrest : Stops carriesOn rest) :
    scan (n.spell ++ rest) = some (n, rest) := by
  have hmagnitude := scanMagnitude_append h hrest
  rw [spell, List.append_assoc, List.append_assoc, List.append_assoc]
  cases hn : n.negative with
  | true =>
    rw [hn] at hmagnitude
    rw [if_pos rfl, List.singleton_append, scan_minus, hmagnitude]
  | false =>
    have hdash : Stops (· == '-') (n.whole ++ (fractionText n.fraction ++ (powerText n.power ++ rest))) := by
      obtain ⟨d, ds, hd⟩ := List.exists_cons_of_ne_nil h.some_digit
      have hdigit := h.whole d (hd ▸ List.mem_cons_self)
      have hne : (d == '-') = false := by
        rw [beq_eq_false_iff_ne]
        rintro rfl
        exact absurd hdigit (by decide)
      rw [hd]
      exact stops_cons (p := (· == '-')) hne _
    rw [hn] at hmagnitude
    rw [if_neg Bool.false_ne_true, List.nil_append, scan_of_stops hdash, hmagnitude]

end Numeral

theorem toDigits_head {n : ℕ} (h : n ≠ 0) : ∃ d ds, Nat.toDigits 10 n = d :: ds ∧ d ≠ '0' := by
  induction n using Nat.strong_induction_on with
  | _ n ih =>
    rw [Nat.toDigits_eq_if (by decide)]
    split
    · next hlt =>
      refine ⟨n.digitChar, [], rfl, ?_⟩
      have hchar : ∀ k < 10, k ≠ 0 → k.digitChar ≠ '0' := by decide
      exact hchar n hlt h
    · next hlt =>
      obtain ⟨d, ds, he, hd⟩ := ih (n / 10) (by omega) (by omega)
      exact ⟨d, ds ++ [(n % 10).digitChar], by rw [he]; rfl, hd⟩

theorem toDigits_leading (n : ℕ) (c : Char) (rest : List Char) : Nat.toDigits 10 n ≠ '0' :: c :: rest := by
  by_cases h : n = 0
  · subst h
    rw [Nat.toDigits_zero]
    simp
  · obtain ⟨d, ds, he, hd⟩ := toDigits_head h
    rw [he]
    exact fun hc => hd (List.cons.inj hc).1

theorem isDigit_of_mem_toDigits {n : ℕ} {c : Char} (h : c ∈ Nat.toDigits 10 n) : c.isDigit :=
  Nat.isDigit_of_mem_toDigits (by decide) (by decide) h

namespace Numeral

def ofInt (n : ℤ) : Numeral := ⟨decide (n < 0), Nat.toDigits 10 n.natAbs, [], none⟩

theorem sound_ofInt (n : ℤ) : (ofInt n).Sound where
  whole _ hc := isDigit_of_mem_toDigits hc
  some_digit := Nat.toDigits_ne_nil
  leading := toDigits_leading n.natAbs
  fraction _ hc := by cases hc

theorem toList_toString (n : ℤ) : (toString n).toList = (ofInt n).spell := by
  rw [Int.toString_eq_repr, Int.repr_eq_if]
  by_cases h : 0 ≤ n
  · have hneg : ¬n < 0 := by omega
    have habs : n.toNat = n.natAbs := by omega
    rw [if_pos h, habs, Nat.repr_eq_ofList_toDigits, String.toList_ofList]
    simp [spell, ofInt, fractionText, powerText, hneg]
  · have hneg : n < 0 := by omega
    have habs : (-n).toNat = n.natAbs := by omega
    rw [if_neg h, habs, Nat.repr_eq_ofList_toDigits, String.toList_append, String.toList_ofList]
    simp [spell, ofInt, fractionText, powerText, hneg]

end Numeral

theorem le_ofDigitChars (cs : List Char) (n : ℕ) : n ≤ Nat.ofDigitChars 10 cs n := by
  induction cs generalizing n with
  | nil => simp
  | cons c cs ih =>
    rw [Nat.ofDigitChars_cons]
    exact le_trans (by omega) (ih _)

theorem gather_of_fits {cs : List Char} {n : ℕ} (h : Nat.ofDigitChars 10 cs n < UInt64.size) :
    gather cs n = (Nat.ofDigitChars 10 cs n, []) := by
  induction cs generalizing n with
  | nil => simp [gather]
  | cons c cs ih =>
    rw [Nat.ofDigitChars_cons, Nat.mul_comm] at h
    have hnext : n * 10 + (c.toNat - '0'.toNat) < UInt64.size := (le_ofDigitChars cs _).trans_lt h
    rw [gather, Nat.ofDigitChars_cons, Nat.mul_comm 10]
    simp only [hnext, if_true]
    exact ih h

namespace Numeral

theorem value?_ofInt {n : ℤ} (hlow : Int64.minValue.toInt ≤ n) (hhigh : n < UInt64.size) :
    (ofInt n).value? = some (.integer n) := by
  have hmin : Int64.minValue.toInt = -9223372036854775808 := by decide
  have hmax : (UInt64.size : ℤ) = 18446744073709551616 := by decide
  have hsize : Nat.ofDigitChars 10 (Nat.toDigits 10 n.natAbs) 0 = n.natAbs := Nat.ofDigitChars_ten_toDigits
  have hfits : Nat.ofDigitChars 10 (Nat.toDigits 10 n.natAbs) 0 < UInt64.size := by
    rw [hsize]
    omega
  have hinteger : isInteger (decide (n < 0)) n.natAbs = true := by
    unfold isInteger
    by_cases hneg : n < 0
    · simp only [hneg, decide_true, if_true, decide_eq_true_eq, hmin]
      omega
    · simp [hneg]
  rw [value?, ofInt, gather_of_fits hfits, hsize]
  simp only [hinteger, and_self, if_true, decide_eq_true_eq, Option.some.injEq, Number.integer.injEq]
  split <;> omega

def double? (n : Numeral) : Option Float :=
  let (significand, raised) := gather n.whole 0
  let (significand, dropped) := gather n.fraction significand
  let places : ℤ := (n.fraction.length : ℤ) - dropped.length
  (scale significand (n.power.getD 0 + raised.length - places)).map fun x => if n.negative then -x else x

theorem value?_eq_double? {n : Numeral} (h : n.fraction = [] → n.power ≠ none) :
    n.value? = n.double?.map .real := by
  unfold value? double?
  dsimp only
  rw [if_neg fun hc => h hc.1 hc.2.1, Option.map_map]
  rfl

end Numeral

end GpuProfile.Json
