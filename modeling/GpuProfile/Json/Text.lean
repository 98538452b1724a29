namespace GpuProfile.Json

def isHex (c : Char) : Bool := c.isDigit || ('a' ≤ c && c ≤ 'f') || ('A' ≤ c && c ≤ 'F')

def hexDigit (c : Char) : Nat :=
  if c.isDigit then c.toNat - '0'.toNat
  else if 'a' ≤ c then c.toNat - 'a'.toNat + 10 else c.toNat - 'A'.toNat + 10

def unit (a b c d : Char) : Nat :=
  ((hexDigit a * 16 + hexDigit b) * 16 + hexDigit c) * 16 + hexDigit d

def isLead (unit : Nat) : Bool := 0xd800 ≤ unit && unit < 0xdc00

def isTrail (unit : Nat) : Bool := 0xdc00 ≤ unit && unit < 0xe000

def pair (lead trail : Nat) : Char :=
  Char.ofNat (0x10000 + (lead - 0xd800) * 0x400 + (trail - 0xdc00))

def simpleEscape : Char → Option Char
  | '"' => some '"'
  | '\\' => some '\\'
  | '/' => some '/'
  | 'b' => some '\x08'
  | 'f' => some '\x0c'
  | 'n' => some '\n'
  | 'r' => some '\r'
  | 't' => some '\t'
  | _ => none

def scanText : List Char → Option (List Char × List Char)
  | [] => none
  | '"' :: rest => some ([], rest)
  | '\\' :: 'u' :: a :: b :: c :: d :: rest =>
    if isHex a && isHex b && isHex c && isHex d then
      (scanText rest).map fun (written, rest) =>
        ('\\' :: 'u' :: a :: b :: c :: d :: written, rest)
    else none
  | '\\' :: c :: rest =>
    if (simpleEscape c).isSome then
      (scanText rest).map fun (written, rest) => ('\\' :: c :: written, rest)
    else none
  | c :: rest =>
    if c < ' ' then none
    else (scanText rest).map fun (written, rest) => (c :: written, rest)

def unescape : List Char → Option (List Char)
  | [] => some []
  | '\\' :: 'u' :: a :: b :: c :: d :: '\\' :: 'u' :: e :: f :: g :: h :: rest =>
    let first := unit a b c d
    let second := unit e f g h
    if isLead first then
      if isTrail second then (unescape rest).map (pair first second :: ·) else none
    else if isTrail first then none
    else (unescape ('\\' :: 'u' :: e :: f :: g :: h :: rest)).map (Char.ofNat first :: ·)
  | '\\' :: 'u' :: a :: b :: c :: d :: rest =>
    let only := unit a b c d
    if isLead only || isTrail only then none
    else (unescape rest).map (Char.ofNat only :: ·)
  | '\\' :: c :: rest => do (← simpleEscape c) :: (← unescape rest)
  | c :: rest => (unescape rest).map (c :: ·)

def escape (c : Char) : List Char :=
  match c with
  | '"' => ['\\', '"']
  | '\\' => ['\\', '\\']
  | '\x08' => ['\\', 'b']
  | '\x0c' => ['\\', 'f']
  | '\n' => ['\\', 'n']
  | '\r' => ['\\', 'r']
  | '\t' => ['\\', 't']
  | c =>
    if c < ' ' then
      ['\\', 'u', '0', '0', Nat.digitChar (c.toNat / 16), Nat.digitChar (c.toNat % 16)]
    else [c]

def quote (s : String) : List Char := '"' :: s.toList.flatMap escape ++ ['"']

end GpuProfile.Json
