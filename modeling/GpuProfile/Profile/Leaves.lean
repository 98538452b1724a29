import GpuProfile.Profile
import GpuProfile.Trace.Prepared

namespace GpuProfile

structure Leaf (α : Type) where
  command : CommandIndex
  values : SortedMap MetricId (Option (Perf α))

def Leaf.value? {α : Type} (leaf : Leaf α) (metric : MetricId) : Option (Perf α) :=
  (leaf.values.get? metric).join

abbrev Leaves (α : Type) : Type := SortedMap GroupId (Leaf α)

namespace Leaves

variable {α : Type}

def ofGroups (groups : List Group) : Leaves α :=
  SortedMap.ofList (groups.map fun g => (g.id, ⟨g.command, .empty⟩))

def set (leaves : Leaves α) (group : GroupId) (metric : MetricId) (value : Option (Perf α)) :
    Leaves α :=
  leaves.modify group fun leaf => { leaf with values := leaf.values.insert metric value }

end Leaves

end GpuProfile
