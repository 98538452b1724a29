import GpuProfile.Storage.Output

namespace GpuProfile

namespace Tool

def lines (texts : List String) : String := String.join (texts.map (· ++ "\n"))

def describeMetric (metric : Metric) : String :=
  s!"    [{metric.id.toInt}] " ++ metric.name ++ " (" ++ metric.unit ++ ", " ++
    metric.operator.name ++ ")"

def describeReport (r : Report Float) : String :=
  let empty := r.profile.entries.countP (·.values.isEmpty)
  lines <|
    ["✓ Valid report JSON", "  Version: " ++ r.version, "  Source: " ++ r.source,
      "  Generated: " ++ r.generatedAt, s!"  Metrics: {r.profile.metrics.length}"] ++
    r.profile.metrics.map describeMetric ++
    [s!"  Command Nodes: {r.profile.entries.length}"] ++
    if 0 < empty then [s!"  Nodes without values: {empty}"] else []

variable {m : Type → Type} [Monad m] [Host m]

def validate (path : String) : m (Except OutputFault Unit) := do
  Host.print (lines ["Validating report: " ++ path])
  match ← Output.readReport path with
  | .error e => return .error e
  | .ok report =>
    Host.print (describeReport report)
    return .ok ()

def schemaFields : List String :=
  ["Schema Structure:",
    "  version: string          - Schema version (e.g., '1.0.0')",
    "  source: string           - Profiling data the report was computed from",
    "  generated_at: string     - ISO 8601 timestamp",
    "  metrics: array           - Metric metadata",
    "    id: number             - 0 = GPU Time, 1 = GPU Wall Time, 2.. = counters",
    "    name: string           - Metric name",
    "    unit: string           - Metric unit",
    "    op: string             - summation | time_weighted_average | unsupported",
    "  entries: array           - One per command node (leaves and ancestors)",
    "    command_index: array   - Position in the command tree",
    "    metric_to_value: object - Metric id -> \x7bestimate, min, max\x7d",
    "                               (-1 in all three = not computable)"]

def schemaText (details : Bool) : String :=
  lines <|
    ["GPU Perf Trace Report Schema", "Current Version: " ++ schemaVersion, ""] ++
    if details then schemaFields else ["Use --show for detailed schema information"]

def toolVersion : String := "0.1.0"

def versionText : String :=
  lines ["GPU Perf Trace v" ++ toolVersion, "Report Schema: v" ++ schemaVersion, "",
    "Per-command GPU performance metrics from slice traces and hardware counters."]

end Tool

end GpuProfile
