import GpuProfile.Decimal.Binary

namespace GpuProfile.Decimal

def roundHalfEven (num den : Nat) : Nat :=
  let below := num / den
  let rest := 2 * (num % den)
  if den < rest ∨ rest = den ∧ below % 2 = 1 then below + 1 else below

def placed (count places : Nat) : List Char :=
  let digits := Nat.toDigits 10 count
  let digits := List.replicate (places + 1 - digits.length) '0' ++ digits
  let whole := digits.length - places
  digits.take whole ++ if places = 0 then [] else '.' :: digits.drop whole

def fixedText (x : Float) (places : Nat) : String :=
  if x.isNaN then "NaN"
  else if x.isInf then if x < 0 then "-inf" else "inf"
  else
    let b := Binary.ofFloat x
    let (num, den) := b.ratio
    let text := placed (roundHalfEven (num * Nat.pow 10 places) den) places
    String.ofList (if b.negative then '-' :: text else text)

end GpuProfile.Decimal
