import GpuProfile.Json.Record
import GpuProfile.Profile
import GpuProfile.Trace.Codec

namespace GpuProfile

open Json

variable {α : Type}

def Metric.codec : Codec Metric :=
  .record "Metric"
    (.required "id" [] .int32 <|
      .required "name" [] .string <|
      .required "unit" [] .string <|
      .required "op" [] Operator.codec .nil)
    (fun (id, name, unit, operator, _) => ⟨id, name, unit, operator⟩)
    fun m => (m.id, m.name, m.unit, m.operator, ())

def Perf.codec (value : Codec α) : Codec (Perf α) :=
  .record "Perf"
    (.required "estimate" [] value <|
      .required "min" [] value <|
      .required "max" [] value .nil)
    (fun (estimate, min, max, _) => ⟨estimate, min, max⟩)
    fun p => (p.estimate, p.min, p.max, ())

def Entry.codec (value : Codec α) : Codec (Entry α) :=
  .record "Entry"
    (.required "command_index" [] CommandIndex.codec <|
      .required "metric_to_value" [] (.integerMap (Perf.codec value)) .nil)
    (fun (command, values, _) => ⟨command, values⟩)
    fun e => (e.command, e.values, ())

def Profile.codec (value : Codec α) : Codec (Profile α) :=
  .record "GpuCounters"
    (.required "metrics" [] (.list Metric.codec) <|
      .required "entries" [] (.list (Entry.codec value)) .nil)
    (fun (metrics, entries, _) => ⟨metrics, entries⟩)
    fun p => (p.metrics, p.entries, ())

end GpuProfile
