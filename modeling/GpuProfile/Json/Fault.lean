import GpuProfile.Decimal.Shortest
import GpuProfile.Text.Quoted

namespace GpuProfile.Json

inductive Form where
  | null
  | boolean (value : Bool)
  | integer (value : Int)
  | real (value : Float)
  | string (value : String)
  | sequence
  | map
  deriving DecidableEq

def Form.describe : Form → String
  | .null => "null"
  | .boolean b => "boolean `" ++ toString b ++ "`"
  | .integer n => "integer `" ++ toString n ++ "`"
  | .real x => "floating point `" ++ Decimal.shortText x ++ "`"
  | .string s => "string " ++ Text.quoted s
  | .sequence => "sequence"
  | .map => "map"

inductive Fault where
  | malformed
  | wrongType (found : Form) (expected : String)
  | wrongValue (found : Form) (expected : String)
  | wrongLength (count : Nat) (expected : String)
  | missingField (name : String)
  | duplicateField (name : String)
  deriving DecidableEq

def Fault.message : Fault → String
  | .malformed => "<syntax>"
  | .wrongType found expected => "invalid type: " ++ found.describe ++ ", expected " ++ expected
  | .wrongValue found expected => "invalid value: " ++ found.describe ++ ", expected " ++ expected
  | .wrongLength count expected => s!"invalid length {count}, expected {expected}"
  | .missingField name => "missing field `" ++ name ++ "`"
  | .duplicateField name => "duplicate field `" ++ name ++ "`"

inductive Step where
  | item (index : Nat)
  | key (index : Nat)
  | value (index : Nat)
  deriving DecidableEq, Repr

structure Rejection where
  fault : Fault
  path : List Step
  deriving DecidableEq

def Fault.here (fault : Fault) : Rejection := ⟨fault, []⟩

namespace Rejection

def malformed : Rejection := Fault.malformed.here

def within (step : Step) (r : Rejection) : Rejection := ⟨r.fault, step :: r.path⟩

end Rejection

end GpuProfile.Json
