import GpuProfile.Quantity
import GpuProfile.SortedMap
import GpuProfile.Trace

/-!
Profiles: what each command costs, one value with its uncertainty band for every metric.
-/

namespace GpuProfile

structure Perf (α : Type) where
  estimate : α
  min : α
  max : α
  deriving DecidableEq, Repr

namespace Perf

variable {α : Type}

def exact (x : α) : Perf α := ⟨x, x, x⟩

def map {β : Type} (f : α → β) (p : Perf α) : Perf β := ⟨f p.estimate, f p.min, f p.max⟩

variable [Quantity α]

def unknown : Perf α := exact (-1)

def isUnknown (p : Perf α) : Bool := p.estimate == -1 && p.min == -1 && p.max == -1

def add (p q : Perf α) : Perf α := ⟨p.estimate + q.estimate, p.min + q.min, p.max + q.max⟩

def scale (x : α) (p : Perf α) : Perf α := ⟨x * p.estimate, x * p.min, x * p.max⟩

def divide (p : Perf α) (x : α) : Perf α := ⟨p.estimate / x, p.min / x, p.max / x⟩

end Perf

structure Metric where
  id : MetricId
  name : String
  unit : String
  operator : Operator
  deriving DecidableEq, Repr

namespace Metric

def gpuTime : Metric := ⟨0, "GPU Time", "ns", .summation⟩

def wallTime : Metric := ⟨1, "GPU Wall Time", "ns", .summation⟩

def ofCounter {α : Type} (place : Nat) (c : Counter α) : Metric :=
  ⟨2 + Int32.ofNat place, c.name, c.unit, c.operator⟩

def isAdditive (m : Metric) : Bool := m.operator == .summation

end Metric

structure Entry (α : Type) where
  command : CommandIndex
  values : SortedMap MetricId (Perf α)

structure Profile (α : Type) where
  metrics : List Metric
  entries : List (Entry α)

namespace Profile

variable {α : Type}

def metric? (p : Profile α) (id : MetricId) : Option Metric := p.metrics.find? (·.id == id)

def entry? (p : Profile α) (command : CommandIndex) : Option (Entry α) :=
  p.entries.find? (·.command == command)

end Profile

end GpuProfile
