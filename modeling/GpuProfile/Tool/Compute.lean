import GpuProfile.Flamegraph.Svg
import GpuProfile.Profile.Compute
import GpuProfile.Storage.Output
import GpuProfile.Summary
import GpuProfile.Trace.Reader

namespace GpuProfile

namespace Tool

structure ComputeOptions where
  input : String
  output : String
  svg : Option String
  metric : MetricId
  top : Nat
  drawing : Option Flamegraph.Settings
  summary : Bool

namespace ComputeOptions

def defaultTop : Nat := 20

def maxTop : Nat := 1000

def minWidth : Nat := 200

def standard (input : String) : ComputeOptions :=
  ⟨input, "counters.json", none, Metric.gpuTime.id, defaultTop, none, false⟩

end ComputeOptions

inductive OptionFault where
  | noInput
  | missingInput (path : String)
  | noOutput
  | negativeMetric
  | noRows
  | tooManyRows
  | tooNarrow
  deriving DecidableEq

def OptionFault.message : OptionFault → String
  | .noInput => "Input path cannot be empty"
  | .missingInput path => "Input file does not exist: " ++ path
  | .noOutput => "Output path cannot be empty"
  | .negativeMetric => "Metric id must be non-negative"
  | .noRows => "top_entries must be greater than 0"
  | .tooManyRows => s!"top_entries is too large (max {ComputeOptions.maxTop})"
  | .tooNarrow => s!"Flamegraph width must be at least {ComputeOptions.minWidth} pixels"

inductive ReadFault where
  | file (cause : SystemFault)
  | capture (fault : CaptureFault)
  deriving DecidableEq

namespace ReadFault

def message : ReadFault → String
  | .file cause => "Failed to read profiling data: " ++ cause.message
  | .capture fault => fault.message

def chain : ReadFault → List String
  | .file cause => [message (.file cause), cause.message]
  | .capture (.json fault) => [message (.capture (.json fault)), fault.message]
  | .capture fault => [fault.message]

end ReadFault

inductive ComputeFault where
  | unread (path : String) (fault : ReadFault)
  | uncomputed (defect : Defect)
  | noMetric (id : MetricId) (count : Nat)
  | undrawn (fault : Flamegraph.Fault)
  | reportUnwritten (fault : OutputFault)
  | drawingUnwritten (fault : OutputFault)
  deriving DecidableEq

def ComputeFault.chain : ComputeFault → List String
  | .unread path fault => ("Failed to read profiling data from " ++ path) :: fault.chain
  | .uncomputed defect => ["Failed to compute GPU counters", defect.message]
  | .noMetric id count => [s!"Metric {id.toInt} does not exist (computed {count} metrics)"]
  | .undrawn fault => ["Failed to generate flamegraph", fault.message]
  | .reportUnwritten fault => "Failed to write report JSON" :: fault.chain
  | .drawingUnwritten fault => "Failed to write flamegraph SVG" :: fault.chain

variable {m : Type → Type} [Monad m] [Host m]

def checkOptions (o : ComputeOptions) : m (Except OptionFault Unit) := do
  if o.input.isEmpty then return .error .noInput
  if (← Host.kind? o.input) != some .file then return .error (.missingInput o.input)
  if o.output.isEmpty then return .error .noOutput
  if o.metric < 0 then return .error .negativeMetric
  if o.top = 0 then return .error .noRows
  if ComputeOptions.maxTop < o.top then return .error .tooManyRows
  match o.drawing with
  | some settings =>
    if settings.width < ComputeOptions.minWidth then return .error .tooNarrow
    return .ok ()
  | none => return .ok ()

def speak {ε τ : Type} (x : Warned ε τ) : m (Except ε τ) := do
  let (result, warnings) := x.outcome
  warnings.forM Host.warn
  return result

def readCapture (path : String) : m (Except ReadFault (Capture Float)) := do
  match ← Host.readFile path with
  | .error e => return .error (.file e)
  | .ok none => return .error (.capture (.json .malformed))
  | .ok (some text) => return (← speak (Capture.ofText text)).mapError .capture

def drawing? (o : ComputeOptions) (profile : Profile Float) :
    Except Flamegraph.Fault (Option (String × String)) :=
  match o.svg with
  | none => .ok none
  | some path => do
    let settings := { o.drawing.getD Flamegraph.Settings.standard with metric := o.metric }
    let svg ← Flamegraph.ofProfile settings profile
    .ok (some (path, svg.render))

def bar : String := String.ofList (List.replicate 80 '=')

def summaryText (o : ComputeOptions) (profile : Profile Float) : String :=
  String.join (List.map (· ++ "\n")
    ["", bar, "GPU COUNTER SUMMARY", bar, "Input:         " ++ o.input,
      s!"Metrics:       {profile.metrics.length}", s!"Command nodes: {profile.entries.length}", "",
      Summary.ofProfile profile o.metric o.top, bar])

def writeOutputs (o : ComputeOptions) (report : Report Float) (drawing : Option (String × String)) :
    ExceptT ComputeFault m Unit := do
  ExceptT.adapt .reportUnwritten (ExceptT.mk (Output.writeReport o.output report))
  match drawing with
  | some (path, svg) => ExceptT.adapt .drawingUnwritten (ExceptT.mk (Output.write path svg))
  | none => pure ()

def computeReport (o : ComputeOptions) : ExceptT ComputeFault m (Report Float) := do
  let capture ← ExceptT.adapt (.unread o.input) (ExceptT.mk (readCapture o.input))
  let profile ← ExceptT.adapt .uncomputed
    (ExceptT.mk (speak (Profile.computeWarned capture.timeline capture.counters)))
  if (profile.metric? o.metric).isNone then
    throw (.noMetric o.metric profile.metrics.length)
  let drawing ← ExceptT.adapt .undrawn (ExceptT.mk (pure (drawing? o profile)))
  if o.summary then
    ExceptT.lift (Host.print (summaryText o profile))
  let time ← ExceptT.lift Host.now
  let report := Report.ofProfile profile o.input time
  writeOutputs o report drawing
  return report

def compute (o : ComputeOptions) : m (Except ComputeFault (Report Float)) := (computeReport o).run

end Tool

end GpuProfile
