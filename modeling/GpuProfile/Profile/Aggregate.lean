import GpuProfile.Profile.Attribution
import GpuProfile.Profile.Leaves

namespace GpuProfile

variable {α : Type} [Quantity α]

structure Mean (α : Type) where
  weighted : α
  weight : α

def Mean.quotient? (m : Mean α) : Option α :=
  if m.weight == 0 then none else some (m.weighted / m.weight)

namespace SampleWeights

def sum (weights : SampleWeights α) (c : Counter α) : α :=
  Quantity.sum (weights.toList.map fun (i, weight) => c.value i * weight)

def mean (weights : SampleWeights α) (c : Counter α) : Mean α :=
  weights.toList.foldl
    (fun m (i, weight) =>
      let v := c.interval i
      let duration : α := Quantity.ofNat (v.stop - v.start)
      ⟨m.weighted + c.value i * duration * weight, m.weight + duration * weight⟩)
    ⟨0, 0⟩

def aggregate? (weights : SampleWeights α) (c : Counter α) : Operator → Option α
  | .summation => some (weights.sum c)
  | .timeWeightedAverage => (weights.mean c).quotient?
  | .unsupported => none

end SampleWeights

/-- The three sets of weights bound how many samples count, not what their values come to, so each
of their results may widen the band on either side. -/
def Weights.perf? (w : Weights α) (c : Counter α) (op : Operator) : Option (Perf α) :=
  (w.estimate.aggregate? c op).map fun estimate =>
    let others := [w.min.aggregate? c op, w.max.aggregate? c op].filterMap id
    ⟨estimate, others.foldl Quantity.lesser estimate, others.foldl Quantity.greater estimate⟩

namespace Leaves

def setCounter (p : Prepared) (metric : Metric) (c : Counter α) (leaves : Leaves α) : Leaves α :=
  let concurrency := c.concurrency p.slices
  leaves.keys.foldl
    (fun leaves group =>
      leaves.set group metric.id
        ((Weights.ofSlices (p.ofGroup group) c concurrency).perf? c c.operator))
    leaves

def setCounters (p : Prepared) : Nat → List (Counter α) → Leaves α → Leaves α
  | _, [], leaves => leaves
  | place, c :: rest, leaves =>
    setCounters p (place + 1) rest
      (if c.operator.isSupported then leaves.setCounter p (Metric.ofCounter place c) c else leaves)

end Leaves

def counterMetrics : Nat → List (Counter α) → List Metric
  | _, [] => []
  | place, c :: rest => Metric.ofCounter place c :: counterMetrics (place + 1) rest

end GpuProfile
