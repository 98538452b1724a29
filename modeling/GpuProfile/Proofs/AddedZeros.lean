import GpuProfile.Proofs.RoundedWeights

namespace GpuProfile

open Float.Model Float.Model.UnpackedFloat

namespace Quantity

section

variable {α : Type} [Quantity α]

def IsZero (x : α) : Prop := x = 0 ∨ x = -0

def Settled (x : α) : Prop := x + 0 = x

end

/-- The negative zero never changes a sum, nor does the positive one once the sum has begun with it. -/
class LawfulZeros (α : Type) [Quantity α] : Prop extends LawfulWeights α where
  add_neg_zero (x : α) : x + -0 = x
  settled_add {x : α} (h : Settled x) (y : α) : Settled (x + y)
  isZero_mul {x y : α} : IsZero x → IsZero y → IsZero (x * y)

section

variable {α : Type} [Quantity α] [LawfulZeros α]

theorem settled_zero : Settled (0 : α) := LawfulWeights.zero_add_zero

theorem Settled.add_of_isZero {x z : α} (h : Settled x) (hz : IsZero z) : x + z = x := by
  rcases hz with rfl | rfl
  · exact h
  · exact LawfulZeros.add_neg_zero x

end

instance : LawfulZeros ℚ where
  add_neg_zero x := by rw [neg_zero, add_zero]
  settled_add _ y := add_zero _
  isZero_mul hx hy := by
    simp only [IsZero, neg_zero, or_self] at *
    rw [hx, zero_mul]

end Quantity

namespace Double

theorem pack_unpack (x : Float) : Float.ofModel (.pack x.toModel.unpack) = x := Float.ofBits_toBits x

theorem add_negative_zero (u : UnpackedFloat) : UnpackedFloat.add .binary64 u (.zero .negative) = u := by
  cases u with
  | zero s => cases s <;> rfl
  | _ => rfl

theorem add_positive_zero {u : UnpackedFloat} (h : u ≠ .zero .negative) :
    UnpackedFloat.add .binary64 u (.zero .positive) = u := by
  cases u with
  | zero s =>
    cases s with
    | positive => rfl
    | negative => exact absurd rfl h
  | _ => rfl

theorem eq_zero_of_unpack_pack {u : UnpackedFloat} (hu : Fits u) {s : Sign}
    (h : (Float.Model.pack u).unpack = .zero s) : u = .zero s := by
  rw [unpack_pack] at h
  cases u with
  | notANumber => exact absurd (unpack_packedNaN.symm.trans h) UnpackedFloat.noConfusion
  | infinity s' => exact absurd ((unpack_pack_infinity s').symm.trans h) UnpackedFloat.noConfusion
  | zero s' => exact unpack_packedZero.symm.trans h
  | finite s' m e hpos =>
    obtain ⟨hm, he⟩ := hu _ _ _ _ rfl
    rw [unpack_pack_finite s' hpos hm he] at h
    split at h <;> cases h

theorem exists_form_round (s : Sign) {m : ℕ} {e : ℤ} (hm : 0 < m) (he : -1074 ≤ e) :
    ∃ m' e', UnpackedFloat.round .binary64 s m e = form s m' e' ∧ 0 < m' ∧ m' < 2 ^ 53 ∧ -1074 ≤ e' := by
  have htarget : -1074 ≤ target m e := le_max_right _ _
  obtain ⟨m', e', h, heq⟩ := exists_rounds s (m <<< (e - target m e).toNat) (e - (e - target m e).toNat) .exact
  have hlow := h.le_exponent
  refine ⟨m', e', heq, ?_, h.mantissa_lt, by omega⟩
  apply h.pos (Nat.shiftLeft_pos_iff.mpr hm)
  omega

-- Two numbers that cancel give the positive zero, and no other sum of two finite numbers is rounded to zero.
theorem normalize_fits (m : ℤ) {e : ℤ} (he : -1074 ≤ e) : Fits (UnpackedFloat.normalize .binary64 m e .positive) ∧
    UnpackedFloat.normalize .binary64 m e .positive ≠ .zero .negative := by
  have hround : ∀ (s : Sign) {n : ℕ}, 0 < n → Fits (UnpackedFloat.round .binary64 s n e) ∧
      UnpackedFloat.round .binary64 s n e ≠ .zero .negative := by
    intro s n hn
    obtain ⟨m', e', heq, hpos, hlt, hlow⟩ := exists_form_round s hn he
    rw [heq]
    refine ⟨.form hlt hlow, ?_⟩
    rw [form, dif_neg hpos.ne']
    exact UnpackedFloat.noConfusion
  unfold UnpackedFloat.normalize
  split
  · next hlt =>
    rw [Int.compare_eq_lt] at hlt
    exact hround .negative (by omega)
  · constructor
    · intro s n e' hpos h
      cases h
    · intro h
      cases h
  · next hgt =>
    rw [Int.compare_eq_gt] at hgt
    exact hround .positive (by omega)

theorem add_fits {u v : UnpackedFloat} (hu : Fits u) (hv : Fits v) : Fits (UnpackedFloat.add .binary64 u v) ∧
    (UnpackedFloat.add .binary64 u v = .zero .negative → u = .zero .negative) := by
  cases u with
  | notANumber => exact ⟨nofun, nofun⟩
  | infinity s =>
    cases v with
    | infinity s' => cases s <;> cases s' <;> exact ⟨nofun, nofun⟩
    | _ => exact ⟨nofun, nofun⟩
  | zero s =>
    cases v with
    | zero s' =>
      cases s with
      | negative => cases s' <;> exact ⟨nofun, fun _ => rfl⟩
      | positive => cases s' <;> exact ⟨nofun, nofun⟩
    | notANumber => exact ⟨nofun, nofun⟩
    | infinity s' => exact ⟨nofun, nofun⟩
    | finite s' m' e' hpos' => exact ⟨hv, nofun⟩
  | finite s m e hpos =>
    obtain ⟨-, he⟩ := hu _ _ _ _ rfl
    cases v with
    | notANumber => exact ⟨nofun, nofun⟩
    | infinity s' => exact ⟨nofun, nofun⟩
    | zero s' => exact ⟨hu, nofun⟩
    | finite s' m' e' hpos' =>
      obtain ⟨-, he'⟩ := hv _ _ _ _ rfl
      obtain ⟨hfits, hne⟩ := normalize_fits (s.apply (m <<< (e - min e e').toNat) + s'.apply (m' <<< (e' - min e e').toNat))
        (le_min he he')
      exact ⟨hfits, fun h => absurd h hne⟩

theorem settled_iff {x : Float} : Quantity.Settled x ↔ x.toModel.unpack ≠ .zero .negative := by
  constructor
  · intro h hx
    rw [Quantity.Settled, ← pack_unpack x, hx] at h
    cases h
  · intro h
    change Float.ofModel (.pack (UnpackedFloat.add .binary64 x.toModel.unpack (.zero .positive))) = x
    rw [add_positive_zero h, pack_unpack]

end Double

open Quantity in
instance : LawfulZeros Float where
  add_neg_zero x := by
    change Float.ofModel (.pack (UnpackedFloat.add .binary64 x.toModel.unpack (.zero .negative))) = x
    rw [Double.add_negative_zero, Double.pack_unpack]
  settled_add {x} h y := by
    rw [Double.settled_iff] at h ⊢
    obtain ⟨hfits, hzero⟩ := Double.add_fits (Double.fits_unpack x.toModel) (Double.fits_unpack y.toModel)
    exact fun hsum => h (hzero (Double.eq_zero_of_unpack_pack hfits hsum))
  isZero_mul := by
    rintro x y (rfl | rfl) (rfl | rfl)
    · exact .inl (by decide)
    · exact .inr (by decide)
    · exact .inr (by decide)
    · exact .inl (by decide)

end GpuProfile
