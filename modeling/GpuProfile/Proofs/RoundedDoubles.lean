import Mathlib

/-!
How doubles are rounded and packed. Rounding drops the bits that do not fit, and a number that loses
none of its leading bits is unpacked as it was packed, unless it lies beyond the largest double.
-/

namespace GpuProfile

open Float.Model Float.Model.UnpackedFloat

namespace Double

theorem mantissa_shiftRight (em : ExtendedMantissa) (n : ℕ) : (em >>> n).mantissa = em.mantissa / 2 ^ n := by
  change (n.repeat ExtendedMantissa.shiftRightOne em).mantissa = _
  induction n with
  | zero => simp [Nat.repeat]
  | succ n ih => rw [Nat.repeat, ExtendedMantissa.shiftRightOne, ih, Nat.div_div_eq_div_mul, pow_succ]

theorem roundedMantissa_bounds (em : ExtendedMantissa) :
    em.mantissa ≤ em.roundedMantissa ∧ em.roundedMantissa ≤ em.mantissa + 1 := by
  rw [ExtendedMantissa.roundedMantissa]
  unfold Accuracy.roundToNearestEven
  split <;> omega

def target (m : ℕ) (e : ℤ) : ℤ := max (m.log2 + 1 + e - 53) (-1074)

def excess (m : ℕ) (e : ℤ) : ℕ := (target m e - e).toNat

theorem shift_mantissa (m : ℕ) (e : ℤ) (accuracy : Accuracy) :
    (shiftToTargetExponent .binary64 m e accuracy).1.mantissa = m / 2 ^ excess m e := by
  rw [shiftToTargetExponent, shiftToExponent, mantissa_shiftRight]
  congr 1
  unfold ExtendedMantissa.ofMantissaAndAccuracy
  split <;> rfl

theorem shift_exponent (m : ℕ) (e : ℤ) (accuracy : Accuracy) :
    (shiftToTargetExponent .binary64 m e accuracy).2 = max e (target m e) := by
  change e + (excess m e : ℤ) = _
  unfold excess
  omega

theorem div_excess_lt (m : ℕ) (e : ℤ) : m / 2 ^ excess m e < 2 ^ 53 := by
  have hle : m.log2 + 1 ≤ 53 + excess m e := by
    unfold excess target
    omega
  rw [Nat.div_lt_iff_lt_mul (Nat.two_pow_pos _), ← pow_add]
  exact Nat.lt_log2_self.trans_le (Nat.pow_le_pow_right two_pos hle)

theorem div_excess_pos {m : ℕ} {e : ℤ} (hm : 0 < m) (he : -1074 ≤ e) : 0 < m / 2 ^ excess m e := by
  have hle : excess m e ≤ m.log2 := by
    unfold excess target
    omega
  apply Nat.div_pos _ (Nat.two_pow_pos _)
  exact (Nat.pow_le_pow_right two_pos hle).trans (Nat.log2_self_le hm.ne')

theorem le_div_excess {m : ℕ} {e : ℤ} (he : e ≤ target m e) (ht : -1074 < target m e) :
    2 ^ 52 ≤ m / 2 ^ excess m e := by
  have hm : m ≠ 0 := by
    rintro rfl
    rw [target, Nat.log2_zero] at he ht
    omega
  have hlog : m.log2 = 52 + excess m e := by
    unfold excess
    unfold target at *
    omega
  rw [Nat.le_div_iff_mul_le (Nat.two_pow_pos _), ← pow_add, ← hlog]
  exact Nat.log2_self_le hm

theorem shift_rounded {r : ℕ} {e : ℤ} (hr : r ≤ 2 ^ 53) (he : -1074 ≤ e) :
    excess r e = if r = 2 ^ 53 then 1 else 0 := by
  unfold excess target
  split
  · next h =>
    subst h
    rw [Nat.log2_two_pow]
    omega
  · next h =>
    have hlog : r.log2 ≤ 52 := by
      by_cases hz : r = 0
      · simp [hz]
      · have hlt := (Nat.log2_lt hz).mpr (show r < 2 ^ 53 by omega)
        omega
    omega

/-- What rounding makes of a mantissa and its exponent. -/
structure Rounds (m : ℕ) (e : ℤ) (m' : ℕ) (e' : ℤ) : Prop where
  mantissa_lt : m' < 2 ^ 53
  le_mantissa : min (m / 2 ^ excess m e) (2 ^ 52) ≤ m'
  le_exponent : max e (target m e) ≤ e'
  exponent_le : e' ≤ max e (target m e) + 1

def form (s : Sign) (m : ℕ) (e : ℤ) : UnpackedFloat :=
  if h : m = 0 then .zero s else .finite s m e (Nat.pos_of_ne_zero h)

theorem exists_rounds (s : Sign) (m : ℕ) (e : ℤ) (accuracy : Accuracy) :
    ∃ m' e', Rounds m e m' e' ∧ roundWithAccuracy .binary64 s m e accuracy = form s m' e' := by
  have hmantissa := shift_mantissa m e accuracy
  have hexponent := shift_exponent m e accuracy
  have hlt := div_excess_lt m e
  have hbounds := roundedMantissa_bounds (shiftToTargetExponent .binary64 m e accuracy).1
  rw [hmantissa] at hbounds
  unfold roundWithAccuracy
  dsimp only
  rw [hexponent]
  generalize (shiftToTargetExponent .binary64 m e accuracy).1.roundedMantissa = r at hbounds
  refine ⟨_, _, ?_, rfl⟩
  have hlow : -1074 ≤ max e (target m e) := (le_max_right _ _).trans (le_max_right _ _)
  have hexcess := shift_rounded (r := r) (by omega) hlow
  have hstep : ∀ e₁, max e₁ (target r e₁) = e₁ + excess r e₁ := by
    intro e₁
    unfold excess
    omega
  rw [shift_mantissa, shift_exponent, hstep, hexcess]
  split
  · next h =>
    subst h
    constructor <;> push_cast <;> omega
  · constructor <;> push_cast <;> omega

theorem Rounds.pos {m m' : ℕ} {e e' : ℤ} (h : Rounds m e m' e') (hm : 0 < m) (he : -1074 ≤ e) : 0 < m' := by
  have hdiv := div_excess_pos hm he
  have hle := h.le_mantissa
  omega

theorem Rounds.normal {m m' : ℕ} {e e' : ℤ} (h : Rounds m e m' e') (he : e ≤ target m e) (ht : -1074 < target m e) :
    2 ^ 52 ≤ m' := by
  have hdiv := le_div_excess he ht
  have hle := h.le_mantissa
  omega

theorem log2_shiftLeft {m : ℕ} (hm : 0 < m) (n : ℕ) : (m <<< n).log2 = m.log2 + n := by
  have hlow := Nat.mul_le_mul_right (2 ^ n) (Nat.log2_self_le hm.ne')
  have hhigh := Nat.mul_lt_mul_of_pos_right (@Nat.lt_log2_self m) (Nat.two_pow_pos n)
  rw [← pow_add] at hlow hhigh
  rw [← Nat.shiftLeft_eq] at hlow hhigh
  apply (Nat.log2_eq_iff ((Nat.two_pow_pos _).trans_le hlow).ne').mpr
  rw [Nat.add_right_comm] at hhigh
  exact ⟨hlow, hhigh⟩

theorem target_shiftLeft {m : ℕ} (hm : 0 < m) (e : ℤ) (n : ℕ) : target (m <<< n) (e - n) = target m e := by
  unfold target
  rw [log2_shiftLeft hm]
  omega

def RoundedAt (t : ℤ) (u : UnpackedFloat) : Prop :=
  ∃ m e, u = form .positive m e ∧ 0 < m ∧ m < 2 ^ 53 ∧ t ≤ e ∧ e ≤ t + 1 ∧ (-1074 < t → 2 ^ 52 ≤ m)

theorem roundedAt_roundWithAccuracy {m : ℕ} {e : ℤ} (hm : 0 < m) (he : -1074 ≤ e) (hle : e ≤ target m e)
    (accuracy : Accuracy) : RoundedAt (target m e) (roundWithAccuracy .binary64 .positive m e accuracy) := by
  obtain ⟨m', e', h, heq⟩ := exists_rounds .positive m e accuracy
  have hlow := h.le_exponent
  have hhigh := h.exponent_le
  refine ⟨m', e', heq, h.pos hm he, h.mantissa_lt, ?_, ?_, h.normal hle⟩
  · omega
  · omega

theorem roundedAt_round {m : ℕ} {e : ℤ} (hm : 0 < m) (he : -1074 ≤ e) :
    RoundedAt (target m e) (round .binary64 .positive m e) := by
  have htarget := target_shiftLeft hm e (e - target m e).toNat
  have hlow : -1074 ≤ target m e := le_max_right _ _
  have hshift : 0 < m <<< (e - target m e).toNat := Nat.shiftLeft_pos_iff.mpr hm
  rw [← htarget]
  apply roundedAt_roundWithAccuracy hshift
  · omega
  · omega

theorem unpackSign_packComponents {spec : Format} {s : Sign} {e : BitVec spec.exponentBits}
    {m : BitVec spec.mantissaBitsWithoutImplicit} : unpackSign (packComponents spec s e m) = s.toBitVec := by
  ext i hi
  have hplace : i = 0 := by omega
  simp [unpackSign, packComponents, BitVec.getLsbD_append, BitVec.getElem_append, hplace]

theorem ofBitVec_toBitVec (s : Sign) : Sign.ofBitVec s.toBitVec = s := by cases s <;> rfl

theorem unpack_pack_infinity (s : Sign) :
    UnpackedFloat.unpack .binary64 (UnpackedFloat.pack .binary64 (.infinity s)) = .infinity s := by
  cases s <;> rfl

theorem toNat_implicit_bit {m : ℕ} (hlow : 2 ^ 52 ≤ m) (hhigh : m < 2 ^ 53) :
    (1#1 ++ BitVec.ofNat 52 m).toNat = m := by
  rw [BitVec.toNat_append, ← Nat.shiftLeft_add_eq_or_of_lt (BitVec.isLt _), BitVec.toNat_ofNat]
  change 2 ^ 52 + m % 2 ^ 52 = m
  omega

def biased (e : ℤ) : ℕ := (e + (1023 : ℕ) + (52 : ℕ)).toNat

theorem pack_finite (s : Sign) {m : ℕ} {e : ℤ} (hpos : 0 < m) (hm : m < 2 ^ 53) :
    UnpackedFloat.pack .binary64 (.finite s m e hpos) =
      if 2047 ≤ biased e then packedInfinity .binary64 s
      else if 2 ^ 52 ≤ m then packComponents .binary64 s (BitVec.ofNat 11 (biased e)) (BitVec.ofNat 52 m)
      else packComponents .binary64 s 0#11 (BitVec.ofNat 52 m) := by
  have hlog : m.log2 + 1 = 53 ↔ 2 ^ 52 ≤ m := by
    rw [← Nat.le_log2 hpos.ne']
    have hlt := (Nat.log2_lt hpos.ne').mpr hm
    omega
  have hbiased : 2 ^ 11 ≤ biased e + 1 ↔ 2047 ≤ biased e := by omega
  simp only [← hlog, ← hbiased]
  rfl

theorem unpack_subnormal (s : Sign) {m : ℕ} (hpos : 0 < m) (hm : m < 2 ^ 52) :
    UnpackedFloat.unpack .binary64 (packComponents .binary64 s 0#11 (BitVec.ofNat 52 m)) =
      .finite s m (-1074) hpos := by
  have hword : (BitVec.ofNat 52 m).toNat = m := by
    rw [BitVec.toNat_ofNat]
    omega
  have hne : BitVec.ofNat 52 m ≠ 0#52 := by
    intro hzero
    rw [hzero] at hword
    exact hpos.ne hword
  simp only [UnpackedFloat.unpack, unpackMantissa_packComponents, unpackExponent_packComponents,
    unpackSign_packComponents, ofBitVec_toBitVec]
  rw [if_neg (by decide), if_pos trivial, dif_neg hne]
  simp only [hword]
  rfl

theorem unpack_normal (s : Sign) {m : ℕ} {e : ℤ} (hpos : 0 < m) (hlow : 2 ^ 52 ≤ m) (hhigh : m < 2 ^ 53)
    (he : -1074 ≤ e) (hle : biased e < 2047) :
    UnpackedFloat.unpack .binary64 (packComponents .binary64 s (BitVec.ofNat 11 (biased e)) (BitVec.ofNat 52 m)) =
      .finite s m e hpos := by
  have hword : (BitVec.ofNat 11 (biased e)).toNat = biased e := by
    rw [BitVec.toNat_ofNat]
    omega
  have hexponent : (biased e : ℤ) - ((1023 : ℕ) + (52 : ℕ)) = e := by
    unfold biased
    omega
  have hne : ∀ x : BitVec 11, x.toNat = 0 ∨ x.toNat = 2047 → BitVec.ofNat 11 (biased e) ≠ x := by
    rintro x hx rfl
    rw [hword] at hx
    omega
  simp only [UnpackedFloat.unpack, unpackMantissa_packComponents, unpackExponent_packComponents,
    unpackSign_packComponents, ofBitVec_toBitVec]
  rw [if_neg (hne _ (.inr rfl)), if_neg (hne _ (.inl rfl))]
  simp only [toNat_implicit_bit hlow hhigh, hword]
  congr 1

theorem unpack_pack_finite (s : Sign) {m : ℕ} {e : ℤ} (hpos : 0 < m) (hm : m < 2 ^ 53) (he : -1074 ≤ e) :
    UnpackedFloat.unpack .binary64 (UnpackedFloat.pack .binary64 (.finite s m e hpos)) =
      if 972 ≤ e then .infinity s else .finite s m (if 2 ^ 52 ≤ m then e else -1074) hpos := by
  have hbiased : 2047 ≤ biased e ↔ 972 ≤ e := by
    unfold biased
    omega
  rw [pack_finite s hpos hm]
  simp only [hbiased]
  split
  · exact unpack_pack_infinity s
  · next hle =>
    split
    · next hlow => exact unpack_normal s hpos hlow hm he (by omega)
    · next hlow => exact unpack_subnormal s hpos (by omega)

def Fits (u : UnpackedFloat) : Prop := ∀ s m e h, u = .finite s m e h → m < 2 ^ 53 ∧ -1074 ≤ e

theorem fits_unpack (x : Float.Model) : Fits x.unpack := by
  intro s m e h hx
  unfold Float.Model.unpack UnpackedFloat.unpack at hx
  have hmantissa := (@unpackMantissa .binary64 x.toBits.toBitVec).isLt
  dsimp only at hx
  split at hx
  · split at hx <;> cases hx
  · split at hx
    · next hzero =>
      split at hx
      · cases hx
      · cases hx
        rw [hzero]
        constructor
        · exact hmantissa.trans (by decide)
        · decide
    · next hzero =>
      cases hx
      have hexponent : (@unpackExponent .binary64 x.toBits.toBitVec).toNat ≠ 0 :=
        fun h => hzero (BitVec.eq_of_toNat_eq h)
      constructor
      · rw [BitVec.toNat_append, ← Nat.shiftLeft_add_eq_or_of_lt hmantissa]
        change _ < 2 ^ 52 at hmantissa
        change 2 ^ 52 + _ < _
        omega
      · generalize @unpackExponent .binary64 x.toBits.toBitVec = place at hexponent
        change (-1074 : ℤ) ≤ (place.toNat : ℤ) - ((1023 : ℕ) + (52 : ℕ))
        omega

theorem unpack_pack (u : UnpackedFloat) :
    (Float.Model.pack u).unpack = UnpackedFloat.unpack .binary64 (UnpackedFloat.pack .binary64 u) := rfl

theorem Fits.form {s : Sign} {m : ℕ} {e : ℤ} (hm : m < 2 ^ 53) (he : -1074 ≤ e) : Fits (form s m e) := by
  intro s' m' e' h hform
  unfold Double.form at hform
  split at hform
  · cases hform
  · cases hform
    exact ⟨hm, he⟩

theorem RoundedAt.unpack_pack {t : ℤ} {u : UnpackedFloat} (h : RoundedAt t u) (ht : -1074 < t) :
    ∃ (m : ℕ) (e : ℤ) (hpos : 0 < m), t ≤ e ∧ e ≤ t + 1 ∧
      (Float.Model.pack u).unpack = if 972 ≤ e then .infinity .positive else .finite .positive m e hpos := by
  obtain ⟨m, e, rfl, hpos, hlt, hle, hge, hnormal⟩ := h
  refine ⟨m, e, hpos, hle, hge, ?_⟩
  rw [form, dif_neg hpos.ne', Double.unpack_pack, unpack_pack_finite _ hpos hlt (by omega), if_pos (hnormal ht)]

theorem normalize_natCast {n : ℕ} (hn : 0 < n) (e : ℤ) :
    normalize .binary64 (n : ℤ) e .positive = round .binary64 .positive n e := by
  have hcompare : compare (n : ℤ) 0 = .gt := Int.compare_eq_gt.mpr (by omega)
  rw [UnpackedFloat.normalize, hcompare]
  rfl

end Double

end GpuProfile
