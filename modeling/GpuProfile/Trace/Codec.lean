import GpuProfile.Json.Record
import GpuProfile.Trace

namespace GpuProfile

open Json

def Slice.codec : Codec Slice :=
  .record "Slice"
    (.required "group_id" ["groupId"] .int32 <|
      .optional "depth" [] .int32 0 <|
      .required "ts" ["timestamp"] .uint64 <|
      .required "dur" ["duration"] .uint64 .nil)
    (fun (group, depth, ts, dur, _) => ⟨group, depth, ts, dur⟩)
    fun s => (s.group, s.depth, s.ts, s.dur, ())

def Group.codec : Codec Group :=
  .record "Group"
    (.required "id" ["groupId", "group_id"] .int32 <|
      .required "command_index" ["commandIndex", "indices"] CommandIndex.codec .nil)
    (fun (id, command, _) => ⟨id, command⟩)
    fun g => (g.id, g.command, ())

def Timeline.codec : Codec Timeline :=
  .record "GpuSlices"
    (.optional "slices" [] (.list Slice.codec) [] <|
      .optional "groups" [] (.list Group.codec) [] .nil)
    (fun (slices, groups, _) => ⟨slices, groups⟩)
    fun t => (t.slices, t.groups, ())

def Operator.codec : Codec Operator := .tag ofName name

variable {α : Type}

def Counter.codec (value : Codec α) : Codec (Counter α) :=
  .record "Counter"
    (.required "name" [] .string <|
      .optional "unit" [] .string "" <|
      .required "timestamps" [] (.list .uint64) <|
      .required "values" [] (.list value) <|
      .optional "operator" ["aggregation_operator", "aggregationOperator", "op"] Operator.codec
        .timeWeightedAverage .nil)
    (fun (name, unit, timestamps, values, operator, _) =>
      ⟨name, unit, timestamps.toArray, values.toArray, operator⟩)
    fun c => (c.name, c.unit, c.timestamps.toList, c.values.toList, c.operator, ())

def Capture.codec (value : Codec α) : Codec (Capture α) :=
  .record "ProfilingData"
    (.optional "slices" [] Timeline.codec ⟨[], []⟩ <|
      .optional "counters" [] (.list (Counter.codec value)) [] .nil)
    (fun (timeline, counters, _) => ⟨timeline, counters⟩)
    fun c => (c.timeline, c.counters, ())

end GpuProfile
