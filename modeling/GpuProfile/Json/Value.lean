import GpuProfile.SortedMap
import GpuProfile.Decimal.Shortest
import GpuProfile.Json.Document

namespace GpuProfile.Json

inductive Value where
  | null
  | bool (value : Bool)
  | number (value : Number)
  | string (value : String)
  | array (items : List Value)
  | object (members : List (String × Value))

def maxDepth : Nat := 127

mutual

/-- The value of a complete document. Members come in ascending order of their keys; of members
with one key the last one counts. -/
def Document.value? : Nat → Document → Option Value
  | _, .null => some .null
  | _, .bool b => some (.bool b)
  | _, .number numeral => numeral.value?.map .number
  | _, .string written => (unescape written).map fun cs => .string (String.ofList cs)
  | 0, .array _ _ | 0, .object _ _ => none
  | depth + 1, .array items true => (itemValues? depth items).map .array
  | depth + 1, .object members true => (memberValues? depth members []).map .object
  | _, .array _ false | _, .object _ false | _, .broken => none

def itemValues? (depth : Nat) : List Document → Option (List Value)
  | [] => some []
  | item :: rest => do (← Document.value? depth item) :: (← itemValues? depth rest)

def memberValues? (depth : Nat) :
    List (Label × Document) → List (String × Value) → Option (List (String × Value))
  | [], found => some found
  | (.torn _, _) :: _, _ => none
  | (.written key, document) :: rest, found => do
    let key ← unescape key
    let value ← Document.value? depth document
    memberValues? depth rest (Pairs.alter (String.ofList key) (fun _ => value) found)

end

namespace Value

def ofText? (text : String) : Option Value :=
  match Document.ofText text with
  | (document, true) => document.value? maxDepth
  | (_, false) => none

def member? (key : String) : Value → Option Value
  | .object members => Pairs.get? key members
  | _ => none

structure Layout where
  lineBreak : Nat → List Char
  colon : List Char

def Layout.compact : Layout := ⟨fun _ => [], [':']⟩

def Layout.indented : Layout :=
  ⟨fun depth => '\n' :: List.replicate (2 * depth) ' ', [':', ' ']⟩

def numberText : Number → List Char
  | .integer n => (toString n).toList
  | .real x => if x.isFinite then (Decimal.shortText x).toList else ['n', 'u', 'l', 'l']

mutual

def write (layout : Layout) (depth : Nat) : Value → List Char
  | .null => ['n', 'u', 'l', 'l']
  | .bool true => ['t', 'r', 'u', 'e']
  | .bool false => ['f', 'a', 'l', 's', 'e']
  | .number n => numberText n
  | .string s => quote s
  | .array [] => ['[', ']']
  | .array (item :: rest) =>
    '[' :: layout.lineBreak (depth + 1) ++ write layout (depth + 1) item ++
      writeItems layout (depth + 1) rest ++ layout.lineBreak depth ++ [']']
  | .object [] => ['{', '}']
  | .object ((key, value) :: rest) =>
    '{' :: layout.lineBreak (depth + 1) ++ quote key ++ layout.colon ++
      write layout (depth + 1) value ++ writeMembers layout (depth + 1) rest ++
      layout.lineBreak depth ++ ['}']

def writeItems (layout : Layout) (depth : Nat) : List Value → List Char
  | [] => []
  | item :: rest =>
    ',' :: layout.lineBreak depth ++ write layout depth item ++ writeItems layout depth rest

def writeMembers (layout : Layout) (depth : Nat) : List (String × Value) → List Char
  | [] => []
  | (key, value) :: rest =>
    ',' :: layout.lineBreak depth ++ quote key ++ layout.colon ++ write layout depth value ++
      writeMembers layout depth rest

end

def text (layout : Layout) (value : Value) : String := String.ofList (value.write layout 0)

end Value

end GpuProfile.Json
