import GpuProfile.SortedMap
import GpuProfile.Trace

namespace GpuProfile

structure Prepared where
  slices : List Slice
  byGroup : SortedMap GroupId (List Slice)

namespace Prepared

def ofGroup (p : Prepared) (id : GroupId) : List Slice := (p.byGroup.get? id).getD []

end Prepared

namespace Timeline

def declares (t : Timeline) (id : GroupId) : Bool := t.groups.any (·.id == id)

def profiles (t : Timeline) (s : Slice) : Bool := s.depth == 0 && t.declares s.group

def prepare (t : Timeline) : Prepared :=
  let slices := (t.slices.filter t.profiles).mergeSort fun a b => a.ts ≤ b.ts
  ⟨slices, SortedMap.groupBy (·.group) slices⟩

end Timeline

end GpuProfile
