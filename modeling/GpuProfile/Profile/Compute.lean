import GpuProfile.Profile.Busy
import GpuProfile.Profile.Merge
import GpuProfile.Trace.Warning

namespace GpuProfile

namespace Profile

variable {α : Type} [Quantity α]

def metricsOf (counters : List (Counter α)) : List Metric :=
  Metric.gpuTime :: Metric.wallTime :: counterMetrics 0 counters

def leavesOf (timeline : Timeline) (counters : List (Counter α)) : Except Defect (Leaves α) :=
  let prepared := timeline.prepare
  let leaves := Leaves.ofGroups timeline.groups
  match leaves.setTimes prepared leaves.keys with
  | (_, some defect) => .error defect
  | (leaves, none) => .ok (leaves.setCounters prepared 0 counters)

def compute (timeline : Timeline) (counters : List (Counter α)) : Except Defect (Profile α) := do
  checkTraces timeline counters
  let leaves ← leavesOf timeline counters
  .ok ⟨metricsOf counters, leaves.merge (metricsOf counters)⟩

def skipped (metrics : List Metric) : List Warning :=
  (metrics.filter (!·.operator.isSupported)).map fun m => .skippedCounter m.name m.id

def computeWarned (timeline : Timeline) (counters : List (Counter α)) :
    Warned Defect (Profile α) := do
  let profile ← Warned.ofExcept id (compute timeline counters)
  (skipped profile.metrics).forM Warned.warn
  pure profile

end Profile

end GpuProfile
