import GpuProfile.Quantity

namespace GpuProfile

instance : Quantity Rat where
  zero := 0
  one := 1
  ofNat n := n
  lt x y := x < y
  rank x y := if x < y then .lt else if x = y then .eq else .gt
  finite _ := true

namespace Quantity

@[simp]
theorem isNumber_exact (x : Rat) : isNumber x = true := by simp [isNumber]

@[simp]
theorem lesser_exact (x y : Rat) : lesser x y = if y < x then y else x := by
  simp [lesser, lt]

@[simp]
theorem greater_exact (x y : Rat) : greater x y = if x < y then y else x := by
  simp [greater, lt]

end Quantity

end GpuProfile
