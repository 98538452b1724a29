namespace GpuProfile.Decimal

structure Binary where
  negative : Bool
  mantissa : Nat
  exponent : Int
  deriving DecidableEq, Repr

def Binary.ofFloat (x : Float) : Binary :=
  let bits := x.toBits.toNat
  let field := bits / Nat.pow 2 52 % Nat.pow 2 11
  let fraction := bits % Nat.pow 2 52
  { negative := Nat.pow 2 63 ≤ bits
    mantissa := if field = 0 then fraction else Nat.pow 2 52 + fraction
    exponent := (if field = 0 then 1 else field : Nat) - (1075 : Int) }

def Binary.ratio (b : Binary) : Nat × Nat :=
  (b.mantissa * Nat.pow 2 b.exponent.toNat, Nat.pow 2 (-b.exponent).toNat)

end GpuProfile.Decimal
