import GpuProfile.Profile.Leaves
import GpuProfile.Profile.Aggregate

namespace GpuProfile

variable {α : Type}

abbrev Nodes : Type := SortedMap CommandIndex (List GroupId)

namespace Leaves

def nodes (leaves : Leaves α) : Nodes :=
  leaves.toList.foldl
    (fun nodes (group, leaf) => leaf.command.prefixes.foldl
      (fun nodes command => nodes.alter command fun found => found.getD [] ++ [group]) nodes)
    .empty

variable [Quantity α]

def sumOf (metric : MetricId) (members : List (Leaf α)) : Perf α :=
  (members.filterMap (·.value? metric)).foldl Perf.add (.exact 0)

def weightedSum (metric : MetricId) (members : List (Leaf α)) : Perf α × α :=
  members.foldl
    (fun (total, time) leaf =>
      match leaf.value? metric with
      | none => (total, time)
      | some value =>
        let busy := ((leaf.value? Metric.gpuTime.id).map (·.estimate)).getD 0
        (total.add (value.scale busy), time + busy))
    (.exact 0, 0)

def mergeMetric (metric : Metric) (members : List (Leaf α)) : Option (Perf α) :=
  match metric.operator with
  | .summation => some (sumOf metric.id members)
  | .timeWeightedAverage =>
    let (total, time) := weightedSum metric.id members
    if time == 0 then none else some (total.divide time)
  | .unsupported => none

def mergeValues (metrics : List Metric) (members : List (Leaf α)) : SortedMap MetricId (Perf α) :=
  metrics.foldl
    (fun values metric =>
      if metric.operator.isSupported then
        values.insert metric.id ((mergeMetric metric members).getD .unknown)
      else values)
    .empty

def merge (metrics : List Metric) (leaves : Leaves α) : List (Entry α) :=
  leaves.nodes.toList.map fun (command, groups) =>
    ⟨command, mergeValues metrics (groups.filterMap leaves.get?)⟩

end Leaves

end GpuProfile
