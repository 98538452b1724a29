import GpuProfile.Quantity
import GpuProfile.Trace

namespace GpuProfile

inductive Defect where
  | negativeTimestamp (group : GroupId) (ts : Int)
  | negativeDuration (group : GroupId) (ts dur : Int)
  | duplicateGroup (id : GroupId)
  | pastTimeline (slice : Slice)
  | lengthMismatch (counter : String) (timestamps values : Nat)
  | notIncreasing (counter : String) (index : Nat) (before after : UInt64)
  | notFinite (counter : String) (index : Nat)
  | busyOverflow (group : GroupId) (ts : UInt64)
  deriving DecidableEq

namespace Defect

def detail : Defect → String
  | .negativeTimestamp group ts =>
    s!"slice of group {group.toInt} has negative timestamp {ts}"
  | .negativeDuration group ts dur =>
    s!"slice of group {group.toInt} at {ts} has negative duration {dur}"
  | .duplicateGroup id => s!"duplicate group id {id.toInt}"
  | .pastTimeline s =>
    s!"slice of group {s.group.toInt} at {s.start} with duration {s.duration} " ++
      "ends past the timeline"
  | .lengthMismatch counter timestamps values =>
    "counter '" ++ counter ++ s!"' has {timestamps} timestamps but {values} values"
  | .notIncreasing counter index before after =>
    "counter '" ++ counter ++ s!"' timestamps are not strictly increasing at index {index}" ++
      s!" ({before.toNat} -> {after.toNat})"
  | .notFinite counter index =>
    "counter '" ++ counter ++ s!"' has non-finite value at index {index}"
  | .busyOverflow group ts => s!"GPU time of group {group.toInt} overflows at slice {ts.toNat}"

def message (d : Defect) : String := "Invalid profiling data: " ++ d.detail

end Defect

variable {α : Type} [Quantity α]

def firstRepeat : List GroupId → List GroupId → Option GroupId
  | _, [] => none
  | seen, id :: rest => if id ∈ seen then some id else firstRepeat (id :: seen) rest

def firstDescent : Nat → List UInt64 → Option (Nat × UInt64 × UInt64)
  | index, a :: b :: rest =>
    if a < b then firstDescent (index + 1) (b :: rest) else some (index + 1, a, b)
  | _, _ => none

def checkSlices (slices : List Slice) : Except Defect Unit :=
  match slices.find? fun s => timelineEnd ≤ s.start + s.duration with
  | some s => .error (.pastTimeline s)
  | none => .ok ()

def Counter.check (c : Counter α) : Except Defect Unit :=
  if c.timestamps.size ≠ c.values.size then
    .error (.lengthMismatch c.name c.timestamps.size c.values.size)
  else
    match firstDescent 0 c.timestamps.toList with
    | some (index, before, after) => .error (.notIncreasing c.name index before after)
    | none =>
      match c.values.toList.findIdx? fun v => !Quantity.finite v with
      | some index => .error (.notFinite c.name index)
      | none => .ok ()

def checkCounters : List (Counter α) → Except Defect Unit
  | [] => .ok ()
  | c :: rest => do c.check; checkCounters rest

def checkTraces (timeline : Timeline) (counters : List (Counter α)) : Except Defect Unit := do
  match firstRepeat [] (timeline.groups.map (·.id)) with
  | some id => .error (.duplicateGroup id)
  | none =>
    checkSlices timeline.slices
    checkCounters counters

end GpuProfile
