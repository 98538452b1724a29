import GpuProfile.Json.Place
import GpuProfile.Json.Source

namespace GpuProfile.Json

structure Codec (τ : Type) where
  read : {ν : Type} → [Source ν] → ν → Except Rejection τ
  write : τ → Value

namespace Codec

variable {ν τ ρ : Type} [Source ν]

def readText (codec : Codec τ) (text : String) : Except TextFault τ :=
  let (document, ended) := Document.ofText text
  match codec.read document with
  | .ok x => if ended then .ok x else .error ⟨.malformed, none⟩
  | .error r => .error (r.onPage text.toList)

def string : Codec String where
  read source :=
    match Source.view source with
    | .string s => .ok s
    | other => .error (other.mismatch "a string")
  write := .string

def boundedInteger (name : String) (low high : Int) : Number → Except Rejection Int
  | .integer n =>
    if low ≤ n ∧ n ≤ high then .ok n else .error (Fault.wrongValue (.integer n) name).here
  | .real x => .error (Fault.wrongType (.real x) name).here

def integer (name : String) (low high : Int) : Codec Int where
  read source :=
    match Source.view source with
    | .number n => boundedInteger name low high n
    | other => .error (other.mismatch name)
  write n := .number (.integer n)

def map (codec : Codec τ) (into : τ → ρ) (back : ρ → τ) : Codec ρ where
  read source := (codec.read source).map into
  write x := codec.write (back x)

def int32 : Codec Int32 :=
  (integer "i32" Int32.minValue.toInt Int32.maxValue.toInt).map Int32.ofInt Int32.toInt

def int64 : Codec Int64 :=
  (integer "i64" Int64.minValue.toInt Int64.maxValue.toInt).map Int64.ofInt Int64.toInt

def uint64 : Codec UInt64 :=
  (integer "u64" 0 (UInt64.size - 1 : Nat)).map (fun n => n.toNat.toUInt64) fun n => n.toNat

def floatOfInt : Int → Float
  | .ofNat n => n.toUInt64.toFloat
  | .negSucc n => -(n + 1).toUInt64.toFloat

def float : Codec Float where
  read source :=
    match Source.view source with
    | .number (.integer n) => .ok (floatOfInt n)
    | .number (.real x) => .ok x
    | other => .error (other.mismatch "f64")
  write x := .number (.real x)

def readAt (codec : Codec τ) (step : Step) (source : ν) : Except Rejection τ :=
  (codec.read source).mapError (.within step)

def readItems (codec : Codec τ) : Nat → List ν → Except Rejection (List τ)
  | _, [] => .ok []
  | index, item :: rest => do
    let x ← codec.readAt (.item index) item
    let xs ← codec.readItems (index + 1) rest
    .ok (x :: xs)

def list (codec : Codec τ) : Codec (List τ) where
  read source :=
    match Source.view source with
    | .array items closed => do
      let xs ← codec.readItems 0 items
      if closed then .ok xs else .error .malformed
    | other => .error (other.mismatch "a sequence")
  write xs := .array (xs.map codec.write)

def readIntegerKey (key : Key) : Except Rejection Int32 :=
  match key.label with
  | .written text | .torn text =>
    match Numeral.scan text with
    | none => .error .malformed
    | some (numeral, rest) =>
      match numeral.value? with
      | none => .error .malformed
      | some n => do
        let k ← boundedInteger "i32" Int32.minValue.toInt Int32.maxValue.toInt n
        if rest.isEmpty then .ok (Int32.ofInt k) else .error .malformed

def readIntegerMembers (codec : Codec τ) :
    Nat → List (Key × ν) → SortedMap Int32 τ → Except Rejection (SortedMap Int32 τ)
  | _, [], found => .ok found
  | index, (key, value) :: rest, found => do
    let k ← (readIntegerKey key).mapError (.within (.key index))
    let x ← codec.readAt (.value index) value
    codec.readIntegerMembers (index + 1) rest (found.insert k x)

def integerMap (codec : Codec τ) : Codec (SortedMap Int32 τ) where
  read source :=
    match Source.view source with
    | .object members closed => do
      let found ← codec.readIntegerMembers 0 members .empty
      if closed then .ok found else .error .malformed
    | other => .error (other.mismatch "a map")
  write m := .object (m.toList.map fun (k, x) => (toString k.toInt, codec.write x))

def tag (parse : String → τ) (name : τ → String) : Codec τ where
  read {ν} _ source :=
    match Source.view source with
    | .string s => .ok (parse s)
    | .object members closed =>
      if Source.counted ν ∧ members.length ≠ 1 then
        .error (Fault.wrongValue .map "map with a single key").here
      else
        match members with
        | (⟨_, some s⟩, value) :: rest =>
          match Source.view value with
          | .null => if rest.isEmpty && closed then .ok (parse s) else .error .malformed
          | other => .error ((other.mismatch "unit").within (.value 0))
        | _ => .error .malformed
    | other =>
      .error (if Source.counted ν then other.mismatch "string or map" else .malformed)
  write x := .string (name x)

end Codec

end GpuProfile.Json
