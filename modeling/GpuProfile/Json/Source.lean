import GpuProfile.Json.Fault
import GpuProfile.Json.Value

namespace GpuProfile.Json

structure Key where
  label : Label
  text : Option String

def Label.text? : Label → Option String
  | .written text => (unescape text).map String.ofList
  | .torn _ => none

inductive View (ν : Type) where
  | null
  | bool (value : Bool)
  | number (value : Number)
  | string (value : String)
  | array (items : List ν) (closed : Bool)
  | object (members : List (Key × ν)) (closed : Bool)
  | malformed

/-- `whole` says that nothing inside breaks off. A source is `counted` when all its parts are at
hand before the first of them is read, so that a wrong number of them is a fault of its shape. -/
class Source (ν : Type) where
  view : ν → View ν
  whole : ν → Bool
  counted : Bool

def Document.view : Document → View Document
  | .null => .null
  | .bool b => .bool b
  | .number numeral =>
    match numeral.value? with
    | some n => .number n
    | none => .malformed
  | .string written =>
    match unescape written with
    | some cs => .string (String.ofList cs)
    | none => .malformed
  | .array items closed => .array items closed
  | .object members closed =>
    .object (members.map fun (label, value) => (⟨label, label.text?⟩, value)) closed
  | .broken => .malformed

instance : Source Document where
  view := Document.view
  whole := Document.complete
  counted := false

def Value.view : Value → View Value
  | .null => .null
  | .bool b => .bool b
  | .number n => .number n
  | .string s => .string s
  | .array items => .array items true
  | .object members =>
    .object (members.map fun (key, value) => (⟨.written key.toList, some key⟩, value)) true

instance : Source Value where
  view := Value.view
  whole _ := true
  counted := true

def Number.form : Number → Form
  | .integer n => .integer n
  | .real x => .real x

namespace View

variable {ν : Type}

def mismatch (expected : String) : View ν → Rejection
  | .null => (Fault.wrongType .null expected).here
  | .bool b => (Fault.wrongType (.boolean b) expected).here
  | .number n => (Fault.wrongType n.form expected).here
  | .string s => (Fault.wrongType (.string s) expected).here
  | .array _ _ => (Fault.wrongType .sequence expected).here
  | .object _ _ => (Fault.wrongType .map expected).here
  | .malformed => .malformed

end View

end GpuProfile.Json
