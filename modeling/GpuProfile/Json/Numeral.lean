namespace GpuProfile.Json

structure Numeral where
  negative : Bool
  whole : List Char
  fraction : List Char
  power : Option Int
  deriving DecidableEq, Repr

inductive Number where
  | integer (value : Int)
  | real (value : Float)
  deriving DecidableEq

def digitsOf (cs : List Char) : List Char × List Char := cs.span Char.isDigit

def scanWhole (cs : List Char) : Option (List Char × List Char) :=
  match digitsOf cs with
  | ([], _) => none
  | ('0' :: _ :: _, _) => none
  | whole => some whole

def scanFraction : List Char → Option (List Char × List Char)
  | '.' :: cs =>
    match digitsOf cs with
    | ([], _) => none
    | fraction => some fraction
  | cs => some ([], cs)

def scanSign : List Char → Bool × List Char
  | '-' :: cs => (true, cs)
  | '+' :: cs => (false, cs)
  | cs => (false, cs)

def scanPower : List Char → Option (Option Int × List Char)
  | c :: cs =>
    if c = 'e' ∨ c = 'E' then
      let (negative, cs) := scanSign cs
      match digitsOf cs with
      | ([], _) => none
      | (digits, rest) =>
        let size : Int := Nat.ofDigitChars 10 digits 0
        some (some (if negative then -size else size), rest)
    else some (none, c :: cs)
  | [] => some (none, [])

def Numeral.scan (cs : List Char) : Option (Numeral × List Char) := do
  let (negative, cs) := match cs with
    | '-' :: cs => (true, cs)
    | cs => (false, cs)
  let (whole, cs) ← scanWhole cs
  let (fraction, cs) ← scanFraction cs
  let (power, cs) ← scanPower cs
  some (⟨negative, whole, fraction, power⟩, cs)

def gather : List Char → Nat → Nat × List Char
  | [], n => (n, [])
  | c :: cs, n =>
    let next := n * 10 + (c.toNat - '0'.toNat)
    if next < UInt64.size then gather cs next else (n, c :: cs)

def powerOfTen (n : Nat) : Float := Float.ofScientific 1 false n

def shrink : Nat → Float → Nat → Float
  | 0, x, places => x / powerOfTen places
  | tries + 1, x, places =>
    if places ≤ 308 ∨ x == 0 then x / powerOfTen (min places 308)
    else shrink tries (x / powerOfTen 308) (places - 308)

def scale (significand : Nat) (power : Int) : Option Float :=
  let x := significand.toUInt64.toFloat
  if power < 0 then some (shrink 3 x (-power).toNat)
  else if power ≤ 308 then
    let y := x * powerOfTen power.toNat
    if y.isInf then none else some y
  else if significand = 0 then some x else none

def isInteger (negative : Bool) (magnitude : Nat) : Bool :=
  if negative then 0 < magnitude ∧ magnitude ≤ Int64.minValue.toInt.natAbs else true

/-- Digits beyond 64 bits only count as places: before the point they raise the power of ten,
after it they are dropped. -/
def Numeral.value? (n : Numeral) : Option Number :=
  let (significand, raised) := gather n.whole 0
  if n.fraction = [] ∧ n.power = none ∧ raised = [] ∧ isInteger n.negative significand then
    some (.integer (if n.negative then -significand else significand))
  else
    let (significand, dropped) := gather n.fraction significand
    let places : Int := (n.fraction.length : Int) - dropped.length
    (scale significand (n.power.getD 0 + raised.length - places)).map fun x =>
      .real (if n.negative then -x else x)

end GpuProfile.Json
