import GpuProfile.Profile.Leaves
import GpuProfile.Trace.Validity

namespace GpuProfile

structure Busy where
  gpu : Nat
  wall : Nat
  reach : Nat
  deriving DecidableEq, Repr

namespace Busy

def none : Busy := ⟨0, 0, 0⟩

def add (b : Busy) (s : Slice) : Except Defect Busy :=
  if timelineEnd ≤ b.gpu + s.duration then .error (.busyOverflow s.group s.ts)
  else if s.stop ≤ b.reach ∧ s.start < b.reach then .ok { b with gpu := b.gpu + s.duration }
  else
    .ok { gpu := b.gpu + s.duration
          wall := b.wall + (s.stop - max s.start b.reach)
          reach := max b.reach s.stop }

def addAll : List Slice → Busy → Except Defect Busy
  | [], b => .ok b
  | s :: rest, b => do addAll rest (← b.add s)

def ofSlices (slices : List Slice) : Except Defect Busy := addAll slices none

end Busy

namespace Leaves

variable {α : Type} [Quantity α]

def setBusy (leaves : Leaves α) (group : GroupId) (b : Busy) : Leaves α :=
  (leaves.set group Metric.gpuTime.id (some (.exact (Quantity.ofNat b.gpu)))).set
    group Metric.wallTime.id (some (.exact (Quantity.ofNat b.wall)))

def setTimes (p : Prepared) : List GroupId → Leaves α → Leaves α × Option Defect
  | [], leaves => (leaves, none)
  | group :: rest, leaves =>
    match Busy.ofSlices (p.ofGroup group) with
    | .error defect => (leaves, some defect)
    | .ok b => setTimes p rest (leaves.setBusy group b)

end Leaves

end GpuProfile
