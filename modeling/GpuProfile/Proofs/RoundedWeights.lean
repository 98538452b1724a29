import GpuProfile.Proofs.ComputedAverages
import GpuProfile.Proofs.RoundedDoubles

/-!
Rounding keeps weights: a positive sum stays positive, a whole number below the end of the timeline stays
finite, and so does its inverse. So the laws of weights hold of doubles as they stand.
-/

namespace GpuProfile

open Float.Model Float.Model.UnpackedFloat Quantity

namespace Double

inductive Above : UnpackedFloat → Prop
  | infinity : Above (.infinity .positive)
  | finite {m : ℕ} {e : ℤ} (hpos : 0 < m) : Above (.finite .positive m e hpos)

inductive Bounded : UnpackedFloat → Prop
  | zero : Bounded (.zero .positive)
  | finite {m : ℕ} {e : ℤ} (hpos : 0 < m) : Bounded (.finite .positive m e hpos)

theorem Above.unpack_pack {u : UnpackedFloat} (h : Above u) (hu : Fits u) : Above (Float.Model.pack u).unpack := by
  rw [Double.unpack_pack]
  cases h with
  | infinity => exact .infinity
  | @finite m e hpos =>
    obtain ⟨hm, he⟩ := hu _ _ _ _ rfl
    rw [unpack_pack_finite _ hpos hm he]
    split
    · exact .infinity
    · exact .finite hpos

theorem above_iff {u : UnpackedFloat} : Above u ↔ (UnpackedFloat.zero .positive).compare u = some .lt := by
  constructor
  · intro h
    cases h <;> rfl
  · intro h
    cases u with
    | notANumber => cases h
    | zero s => cases h
    | infinity s =>
      cases s with
      | negative => cases h
      | positive => exact .infinity
    | finite s m e hpos =>
      cases s with
      | negative => cases h
      | positive => exact .finite hpos

theorem positive_iff {x : Float} : Positive x ↔ Above x.toModel.unpack := by
  rw [above_iff, ← beq_iff_eq]
  change decide (Float.lt 0 x = true) = true ↔ _
  rw [decide_eq_true_iff]
  change decide ((UnpackedFloat.zero .positive).lt x.toModel.unpack = true) = true ↔ _
  rw [decide_eq_true_iff]
  rfl

theorem Above.compare_zero {u : UnpackedFloat} (h : Above u) : u.compare (.zero .positive) = some .gt := by
  cases h <;> rfl

theorem RoundedAt.above {t : ℤ} {u : UnpackedFloat} (h : RoundedAt t u) (ht : -1074 ≤ t) : Above u ∧ Fits u := by
  obtain ⟨m, e, rfl, hpos, hlt, hle, -, -⟩ := h
  constructor
  · rw [form, dif_neg hpos.ne']
    exact .finite _
  · exact .form hlt (by omega)

theorem add_finite {m m' : ℕ} {e e' : ℤ} (hpos : 0 < m) (hpos' : 0 < m') :
    UnpackedFloat.add .binary64 (.finite .positive m e hpos) (.finite .positive m' e' hpos') =
      round .binary64 .positive (m <<< (e - min e e').toNat + m' <<< (e' - min e e').toNat) (min e e') := by
  have hsum : 0 < m <<< (e - min e e').toNat + m' <<< (e' - min e e').toNat :=
    Nat.add_pos_left (Nat.shiftLeft_pos_iff.mpr hpos) _
  rw [← normalize_natCast hsum, Nat.cast_add]
  rfl

theorem above_add {u v : UnpackedFloat} (hu : u = .zero .positive ∨ Above u) (hv : Above v) (hu' : Fits u)
    (hv' : Fits v) : Above (UnpackedFloat.add .binary64 u v) ∧ Fits (UnpackedFloat.add .binary64 u v) := by
  rcases hu with rfl | hu
  · cases hv with
    | infinity => exact ⟨.infinity, hv'⟩
    | finite hpos => exact ⟨.finite hpos, hv'⟩
  · cases hu with
    | infinity =>
      cases hv with
      | infinity => exact ⟨.infinity, hv'⟩
      | finite hpos => exact ⟨.infinity, hu'⟩
    | @finite m e hpos =>
      cases hv with
      | infinity => exact ⟨.infinity, hv'⟩
      | @finite m' e' hpos' =>
        obtain ⟨-, he⟩ := hu' _ _ _ _ rfl
        obtain ⟨-, he'⟩ := hv' _ _ _ _ rfl
        rw [add_finite]
        apply (roundedAt_round _ (by omega)).above (le_max_right _ _)
        exact Nat.add_pos_left (Nat.shiftLeft_pos_iff.mpr hpos) _

theorem positive_add {x y : Float} (hx : x = 0 ∨ Positive x) (hy : Positive y) : Positive (x + y) := by
  rw [positive_iff] at hx hy ⊢
  have hzero : x = 0 → x.toModel.unpack = .zero .positive := by
    rintro rfl
    rfl
  obtain ⟨habove, hfits⟩ := above_add (hx.imp_left hzero) hy (fits_unpack _) (fits_unpack _)
  exact habove.unpack_pack hfits

inductive Divisor : UnpackedFloat → Prop
  | infinity : Divisor (.infinity .positive)
  | finite {m : ℕ} {e : ℤ} (hpos : 0 < m) (he : -53 ≤ e) : Divisor (.finite .positive m e hpos)

theorem Divisor.above {u : UnpackedFloat} (h : Divisor u) : Above u := by
  cases h with
  | infinity => exact .infinity
  | finite hpos _ => exact .finite hpos

theorem target_natCast (n : ℕ) : target n 0 = n.log2 - 52 := by
  unfold target
  omega

theorem unpack_ofNat {n : ℕ} (hpos : 0 < n) (hn : n < timelineEnd) :
    ∃ (m : ℕ) (e : ℤ) (h : 0 < m), -53 ≤ e ∧ (Quantity.ofNat n : Float).toModel.unpack = .finite .positive m e h := by
  have hround := roundedAt_round hpos (show (-1074 : ℤ) ≤ 0 by decide)
  have hlog : n.log2 < 64 := (Nat.log2_lt hpos.ne').mpr hn
  rw [target_natCast] at hround
  obtain ⟨m, e, h, hlow, hhigh, hunpack⟩ := hround.unpack_pack (by omega)
  rw [if_neg (by omega)] at hunpack
  refine ⟨m, e, h, by omega, ?_⟩
  have hword : n.toUInt64.toNat = n := Nat.mod_eq_of_lt hn
  change (if n < UInt64.size then n.toUInt64.toFloat else _ : Float).toModel.unpack = _
  rw [if_pos (show n < UInt64.size from hn), ← hunpack, ← normalize_natCast hpos]
  change (Float.Model.pack (UnpackedFloat.normalize .binary64 (n.toUInt64.toNat : ℤ) 0 .positive)).unpack = _
  rw [hword]

theorem ofScientific_natCast {n : ℕ} (hn : 2 ^ 53 ≤ n) : (Float.ofScientific n false 0).toModel =
    .pack (roundWithAccuracy .binary64 .positive (n <<< 53 * 10 ^ 0) (-53 + 0) .exact) := by
  unfold Float.ofScientific
  rw [dif_neg (by omega)]
  change Float.Model.pack (UnpackedFloat.ofScientific .binary64 n 0) = _
  have hlow : ¬(0 : ℤ) < -(2 ^ 11 + (n.log2 : ℤ)) := by omega
  rw [UnpackedFloat.ofScientific, dif_neg (by omega), if_neg (by decide), if_neg hlow, if_pos (le_refl _)]
  rfl

theorem divisor_ofNat {n : ℕ} (hpos : 0 < n) : Divisor (Quantity.ofNat n : Float).toModel.unpack := by
  by_cases hn : n < timelineEnd
  · obtain ⟨m, e, h, hlow, hunpack⟩ := unpack_ofNat hpos hn
    rw [hunpack]
    exact .finite h hlow
  · change Divisor (if n < UInt64.size then _ else Float.ofScientific n false 0 : Float).toModel.unpack
    have hlarge : 2 ^ 64 ≤ n := not_lt.mp hn
    have hlog : 64 ≤ n.log2 := (Nat.le_log2 hpos.ne').mpr hlarge
    have htarget : target (n <<< 53) (-53) = n.log2 - 52 := by
      rw [← target_natCast n, ← target_shiftLeft hpos 0 53]
      rfl
    have hshift : 0 < n <<< 53 := Nat.shiftLeft_pos_iff.mpr hpos
    have hround := roundedAt_roundWithAccuracy hshift (e := -53) (by decide) (by omega) .exact
    rw [htarget] at hround
    obtain ⟨m, e, h, hlow, -, hunpack⟩ := hround.unpack_pack (by omega)
    rw [if_neg (show ¬n < UInt64.size from hn), ofScientific_natCast (by omega), pow_zero, mul_one, Int.add_zero,
      hunpack]
    split
    · exact .infinity
    · exact .finite h (by omega)

theorem bounded_pack {m m' : ℕ} {e e' : ℤ} (h : Rounds m e m' e') (he : max e (target m e) ≤ 970) :
    Bounded (Float.Model.pack (form .positive m' e')).unpack := by
  have hlow := h.le_exponent
  have hhigh := h.exponent_le
  have hmin : -1074 ≤ target m e := le_max_right _ _
  unfold form
  split
  · exact .zero
  · next hzero =>
    rw [unpack_pack, unpack_pack_finite _ _ h.mantissa_lt (by omega), if_neg (by omega)]
    exact .finite _

theorem bounded_inverse {u : UnpackedFloat} (h : Divisor u) : Bounded
    (Float.Model.pack (UnpackedFloat.div .binary64 (.finite .positive (2 ^ 52) (-52) (by decide)) u)).unpack := by
  cases h with
  | infinity => exact .zero
  | @finite m e hpos he =>
    obtain ⟨t, ht, accuracy, hdiv⟩ : ∃ t, t ≤ -52 - e ∧ ∃ accuracy,
        UnpackedFloat.div .binary64 (.finite .positive (2 ^ 52) (-52) (by decide)) (.finite .positive m e hpos) =
          roundWithAccuracy .binary64 .positive ((2 ^ 52) <<< (-52 - e - t).toNat / m) t accuracy :=
      ⟨_, min_le_left _ _, _, rfl⟩
    obtain ⟨m', e', h, heq⟩ := exists_rounds .positive ((2 ^ 52) <<< (-52 - e - t).toNat / m) t accuracy
    rw [hdiv, heq]
    apply bounded_pack h
    have hlog : ((2 ^ 52) <<< (-52 - e - t).toNat / m).log2 ≤ 52 + (-52 - e - t).toNat := by
      have hle := Nat.div_le_self ((2 ^ 52) <<< (-52 - e - t).toNat) m
      rw [Nat.log2_eq_log_two]
      apply (Nat.log_mono_right hle).trans
      rw [Nat.shiftLeft_eq, ← pow_add, Nat.log_pow Nat.one_lt_two]
    unfold target
    omega

theorem Bounded.zero_mul {u : UnpackedFloat} (h : Bounded u) :
    UnpackedFloat.mul .binary64 (.zero .positive) u = .zero .positive := by
  cases h <;> rfl

theorem bounded_share (count : ℕ) : Bounded (share count : Float).toModel.unpack := by
  unfold share
  split
  · exact bounded_inverse (divisor_ofNat (by omega))
  · exact .finite (m := 2 ^ 52) (by decide)

end Double

instance : LawfulWeights Float where
  ofNat_zero := by decide
  ofNat_pos hpos _ := Double.positive_iff.mpr (Double.divisor_ofNat hpos).above
  zero_beq_zero := by decide
  beq_zero_of_pos h := by
    change ((_ : UnpackedFloat).compare (.zero .positive) == some .eq) = false
    rw [(Double.positive_iff.mp h).compare_zero]
    rfl
  zero_add_zero := by decide
  add_pos := Double.positive_add
  zero_div hpos hn := by
    obtain ⟨m, e, h, -, hunpack⟩ := Double.unpack_ofNat hpos hn
    change Float.ofModel (.pack (UnpackedFloat.div .binary64 (.zero .positive) _)) = _
    rw [hunpack]
    rfl
  mul_zero hpos hn := by
    obtain ⟨m, e, h, -, hunpack⟩ := Double.unpack_ofNat hpos hn
    change Float.ofModel (.pack (UnpackedFloat.mul .binary64 _ (.zero .positive))) = _
    rw [hunpack]
    rfl
  zero_mul_share count := by
    change Float.ofModel (.pack (UnpackedFloat.mul .binary64 (.zero .positive) _)) = _
    rw [(Double.bounded_share count).zero_mul]
    rfl

end GpuProfile
