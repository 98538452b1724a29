import GpuProfile.Decimal.Binary

/-!
The decimal with the fewest digits among those that round to a given double, and of these the one
nearest to it.
-/

namespace GpuProfile.Decimal

structure Scaled where
  digits : Nat
  exponent : Int
  deriving DecidableEq, Repr

structure Range where
  low : Nat
  value : Nat
  high : Nat
  scale : Nat
  closed : Bool

/-- The neighbours of a power of two lie closer below it than above it. The ends belong to the
range when the mantissa is even, because ties go to the even neighbour. -/
def Range.ofBinary (b : Binary) : Range :=
  let step := b.exponent - 2
  let up := Nat.pow 2 step.toNat
  let below := if b.mantissa = Nat.pow 2 52 ∧ -1074 < b.exponent then 1 else 2
  { low := (4 * b.mantissa - below) * up
    value := 4 * b.mantissa * up
    high := (4 * b.mantissa + 2) * up
    scale := Nat.pow 2 (-step).toNat
    closed := b.mantissa % 2 = 0 }

def Range.contains (r : Range) (point : Nat) : Bool :=
  if r.closed then r.low ≤ point ∧ point ≤ r.high else r.low < point ∧ point < r.high

def Range.onGrid (r : Range) (exponent : Int) : Range × Nat :=
  let finer := Nat.pow 10 (-exponent).toNat
  ({ r with low := r.low * finer, value := r.value * finer, high := r.high * finer },
    r.scale * Nat.pow 10 exponent.toNat)

def Range.hit? (r : Range) (exponent : Int) : Option Nat :=
  let (r, step) := r.onGrid exponent
  let below := r.value / step
  let above := below + 1
  match r.contains (below * step), r.contains (above * step) with
  | false, false => none
  | true, false => some below
  | false, true => some above
  | true, true =>
    let toBelow := r.value - below * step
    let toAbove := above * step - r.value
    if toBelow < toAbove ∨ toBelow = toAbove ∧ below % 2 = 0 then some below else some above

def Range.search (r : Range) : Nat → Int → Scaled
  | 0, exponent => ⟨r.value / r.scale, exponent⟩
  | tries + 1, exponent =>
    match r.hit? exponent with
    | some digits => ⟨digits, exponent⟩
    | none => search r tries (exponent - 1)

def shortest (b : Binary) : Scaled :=
  let magnitude := b.exponent + (Nat.log2 b.mantissa : Nat)
  (Range.ofBinary b).search 22 (magnitude * 30103 / 100000 + 2)

def pointed (digits : List Char) (places : Int) : List Char :=
  if places ≤ 0 then
    '0' :: '.' :: (List.replicate (-places).toNat '0' ++ digits)
  else
    let whole := digits.take places.toNat
    let rest := digits.drop places.toNat
    whole ++ List.replicate (places.toNat - whole.length) '0' ++
      ('.' :: if rest.isEmpty then ['0'] else rest)

def scientific (digits : List Char) (power : Int) : List Char :=
  let sign := if power < 0 then '-' else '+'
  let head := digits.take 1
  let tail := digits.drop 1
  head ++ (if tail.isEmpty then [] else '.' :: tail) ++
    ('e' :: sign :: Nat.toDigits 10 power.natAbs)

def shortText (x : Float) : String :=
  let b := Binary.ofFloat x
  let sign := if b.negative then ['-'] else []
  if b.mantissa = 0 then String.ofList (sign ++ ['0', '.', '0'])
  else
    let s := shortest b
    let digits := Nat.toDigits 10 s.digits
    let power := s.exponent + (digits.length : Nat) - 1
    String.ofList (sign ++
      if -5 ≤ power ∧ power < 16 then pointed digits (power + 1) else scientific digits power)

end GpuProfile.Decimal
