namespace GpuProfile.Text

inductive NumberFault where
  | empty
  | invalidDigit
  | tooLarge
  deriving DecidableEq, Repr

def NumberFault.message : NumberFault → String
  | .empty => "cannot parse integer from empty string"
  | .invalidDigit => "invalid digit found in string"
  | .tooLarge => "number too large to fit in target type"

def readDigits : List Char → Nat → Except NumberFault Nat
  | [], n => .ok n
  | c :: cs, n =>
    if c.isDigit then
      let next := n * 10 + (c.toNat - '0'.toNat)
      if next < UInt64.size then readDigits cs next else .error .tooLarge
    else .error .invalidDigit

def readNatural : List Char → Except NumberFault Nat
  | [] => .error .empty
  | ['+'] => .error .invalidDigit
  | '+' :: cs => readDigits cs 0
  | cs => readDigits cs 0

def readInteger : List Char → Except NumberFault Int
  | ['-'] => .error .invalidDigit
  | '-' :: cs => (readDigits cs 0).map fun n => -n
  | cs => (readNatural cs).map fun n => n

end GpuProfile.Text
