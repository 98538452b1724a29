/-!
Measured values. The computation needs little of a number: the field operations, whole numbers,
a strict order and a ranking. It is written over `Quantity`, so that the same definitions run on
double precision floats and can be read as exact arithmetic.
-/

namespace GpuProfile

/-- Numbers in which samples are weighted and summed. `lt` is false where two values do not
compare; `rank` is a total order that refines it. -/
class Quantity (α : Type) extends Zero α, One α, Neg α, Add α, Mul α, Div α, BEq α where
  ofNat : Nat → α
  lt : α → α → Bool
  rank : α → α → Ordering
  finite : α → Bool

namespace Quantity

variable {α : Type} [Quantity α]

/-- A sum of no terms is the negated zero, the one value that adding never changes. -/
def sum (xs : List α) : α := xs.foldl (· + ·) (-0)

def isNumber (x : α) : Bool := x == x

def lesser (x y : α) : α := if lt y x || !isNumber x then y else x

def greater (x y : α) : α := if lt x y || !isNumber x then y else x

def atLeastZero (x : α) : α := if lt 0 x then x else 0

def half : α := 1 / ofNat 2

end Quantity

/-- The place of a double in the total order of bit patterns. Below the sign bit they ascend from the
positive zero, with it they descend from the negative one; those that are no number lie at both ends. -/
def placeOfBits (bits : UInt64) : Int :=
  if bits < 0x8000000000000000 then bits.toNat else 0x7fffffffffffffff - bits.toNat

/-- Arithmetic that comes to no number gives the one with the sign bit. -/
def floatPlace (x : Float) : Int := placeOfBits (if x.isNaN then 0xfff8000000000000 else x.toBits)

instance : Quantity Float where
  zero := 0
  one := 1
  ofNat n := if n < UInt64.size then n.toUInt64.toFloat else Float.ofScientific n false 0
  lt x y := x < y
  rank x y := compare (floatPlace x) (floatPlace y)
  finite := Float.isFinite

structure Double where
  bits : UInt64

class AsDouble (α : Type) where
  value : α → Float
  place : α → Int

instance : AsDouble Float where
  value := id
  place := floatPlace

instance : AsDouble Double where
  value x := Float.ofBits x.bits
  place x := placeOfBits x.bits

end GpuProfile
