import GpuProfile.Trace.Codec
import GpuProfile.Trace.Validity
import GpuProfile.Trace.Warning

namespace GpuProfile

open Json

inductive CaptureFault where
  | json (fault : Fault)
  | notAnObject
  | inconsistent (defect : Defect)
  deriving DecidableEq

def CaptureFault.message : CaptureFault → String
  | .json fault => "JSON deserialization failed: " ++ fault.message
  | .notAnObject => "Invalid profiling data format: Profiling data must be a JSON object"
  | .inconsistent defect => defect.message

structure RawSlice where
  group : GroupId
  depth : Int32
  ts : Int64
  dur : Int64
  deriving DecidableEq, Repr

namespace RawSlice

def codec : Codec RawSlice :=
  .record "RawSlice"
    (.required "group_id" ["groupId"] .int32 <|
      .optional "depth" [] .int32 0 <|
      .required "ts" ["timestamp"] .int64 <|
      .required "dur" ["duration"] .int64 .nil)
    (fun (group, depth, ts, dur, _) => ⟨group, depth, ts, dur⟩)
    fun s => (s.group, s.depth, s.ts, s.dur, ())

def toSlice (s : RawSlice) : Except Defect Slice :=
  if s.ts < 0 then .error (.negativeTimestamp s.group s.ts.toInt)
  else if s.dur < 0 then .error (.negativeDuration s.group s.ts.toInt s.dur.toInt)
  else .ok ⟨s.group, s.depth, s.ts.toUInt64, s.dur.toUInt64⟩

def toSlices : List RawSlice → Except Defect (List Slice)
  | [] => .ok []
  | s :: rest => do
    let slice ← s.toSlice
    let slices ← toSlices rest
    .ok (slice :: slices)

end RawSlice

namespace Capture

def sliceSections : List String := ["slices", "gpuSlices", "gpu_slices"]

def counterSections : List String := ["counters", "gpuCounters", "gpu_counters"]

def section? (names : List String) (members : List (String × Value)) : Option Value :=
  names.findSome? fun name => Pairs.get? name members

/-- Where the slices and the groups stand. Groups stand beside the slices unless the slice section
is an object. -/
def findSlices (members : List (String × Value)) :
    Warned CaptureFault (Option Value × Option Value) := do
  let beside := Pairs.get? "groups" members
  match section? sliceSections members with
  | some (.object nested) => pure (Pairs.get? "slices" nested, Pairs.get? "groups" nested)
  | some (.array items) => pure (some (.array items), beside)
  | some other =>
    Warned.warn (.ignoredSlices (other.text .compact))
    pure (none, beside)
  | none =>
    Warned.warn .noSlices
    pure (none, beside)

def readList {τ : Type} (codec : Codec τ) : Option Value → Warned CaptureFault (List τ)
  | some value => Warned.ofExcept (fun r => .json r.fault) ((Codec.list codec).read value)
  | none => pure []

def readCounters (members : List (String × Value)) : Warned CaptureFault (List (Counter Float)) :=
  match section? counterSections members with
  | some value => readList (Counter.codec .float) (some value)
  | none => do
    Warned.warn .noCounters
    pure []

def ofValue : Value → Warned CaptureFault (Capture Float)
  | .object members => do
    let (sliceList, groupList) ← findSlices members
    let raw ← readList RawSlice.codec sliceList
    let groups ← readList Group.codec groupList
    let slices ← Warned.ofExcept .inconsistent (RawSlice.toSlices raw)
    let counters ← readCounters members
    let timeline : Timeline := ⟨slices, groups⟩
    Warned.ofExcept .inconsistent (checkTraces timeline counters)
    pure ⟨timeline, counters⟩
  | _ => throw .notAnObject

def ofText (text : String) : Warned CaptureFault (Capture Float) :=
  match Value.ofText? text with
  | some value => ofValue value
  | none => throw (.json .malformed)

end Capture

end GpuProfile
