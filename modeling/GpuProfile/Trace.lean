import GpuProfile.CommandIndex

/-!
Captured traces: spans of work on the GPU, the groups they belong to, and the samples of the
hardware counters. Times are nanoseconds on a timeline of 64-bit words.
-/

namespace GpuProfile

abbrev GroupId := Int32

abbrev MetricId := Int32

def timelineEnd : Nat := UInt64.size

structure Slice where
  group : GroupId
  depth : Int32
  ts : UInt64
  dur : UInt64
  deriving DecidableEq, Repr

namespace Slice

def start (s : Slice) : Nat := s.ts.toNat

def duration (s : Slice) : Nat := s.dur.toNat

def stop (s : Slice) : Nat := min (s.start + s.duration) (timelineEnd - 1)

end Slice

structure Group where
  id : GroupId
  command : CommandIndex
  deriving DecidableEq, Repr

structure Timeline where
  slices : List Slice
  groups : List Group
  deriving DecidableEq, Repr

inductive Operator where
  | summation
  | timeWeightedAverage
  | unsupported
  deriving DecidableEq, Repr

namespace Operator

def isSupported : Operator → Bool
  | .unsupported => false
  | _ => true

def name : Operator → String
  | .summation => "summation"
  | .timeWeightedAverage => "time_weighted_average"
  | .unsupported => "unsupported"

def ofName (s : String) : Operator :=
  if s = "summation" then .summation
  else if s = "time_weighted_average" ∨ s = "time_weighted_avg" ∨ s = "TimeWeightedAvg" then
    .timeWeightedAverage
  else .unsupported

end Operator

structure Interval where
  start : Nat
  stop : Nat
  deriving DecidableEq, Repr

/-- The samples of one hardware counter. The value at a position covers the interval from the time
before it up to its own time, so the value at position zero covers nothing. -/
structure Counter (α : Type) where
  name : String
  unit : String
  timestamps : Array UInt64
  values : Array α
  operator : Operator

namespace Counter

variable {α : Type}

def time (c : Counter α) (i : Nat) : Nat := (c.timestamps.getD i 0).toNat

def interval (c : Counter α) (i : Nat) : Interval := ⟨c.time (i - 1), c.time i⟩

def value [Zero α] (c : Counter α) (i : Nat) : α := c.values.getD i 0

def intervalCount (c : Counter α) : Nat := c.timestamps.size - 1

end Counter

structure Capture (α : Type) where
  timeline : Timeline
  counters : List (Counter α)

end GpuProfile
