import GpuProfile.Decimal.Fixed
import GpuProfile.Flamegraph.Layout
import GpuProfile.Markup

namespace GpuProfile

namespace Flamegraph

structure Settings where
  title : String
  width : Nat
  metric : MetricId
  deriving DecidableEq

def defaultWidth : Nat := 1200

def Settings.standard : Settings := ⟨"GPU Command Profile", defaultWidth, Metric.gpuTime.id⟩

inductive Fault where
  | noEntries
  | unknownMetric (id : MetricId)
  | notAdditive (name : String)
  deriving DecidableEq

def Fault.message : Fault → String
  | .noEntries => "No command entries to render"
  | .unknownMetric id => s!"Unknown metric id: {id.toInt}"
  | .notAdditive name =>
    "Metric '" ++ name ++ "' is not additive and cannot be drawn as a flamegraph"

def rowHeight : Nat := 20

def headHeight : Nat := 30

def marginHeight : Nat := 60

def graphHeight (height : Nat) : Nat := (height + 1) * rowHeight

def rowTop (height level : Nat) : Nat := graphHeight height - (level + 1) * rowHeight + headHeight

def colour : Nat → String
  | 0 => "rgb(100, 149, 237)"
  | 1 => "rgb(220, 20, 60)"
  | 2 => "rgb(255, 140, 0)"
  | 3 => "rgb(255, 165, 0)"
  | 4 => "rgb(218, 165, 32)"
  | _ => "rgb(169, 169, 169)"

def style : String :=
  ".cmd \x7b font: 12px sans-serif; \x7d .cmd:hover \x7b stroke: black; stroke-width: 1; " ++
    "cursor: pointer; opacity: 0.9; \x7d"

def shortName (command : CommandIndex) : String :=
  match command.last? with
  | some part => "#" ++ toString part.toNat
  | none => "all"

def fit (name : String) (room : Nat) : String :=
  if room < name.length ∧ 3 < room then
    String.ofList (name.toList.take (room - 3)) ++ "..."
  else name

def room (width : Float) : Nat := (width / 7).toUInt64.toNat

def longName (command : CommandIndex) : String :=
  if command.isEmpty then "all commands" else "command " ++ command.text

def caption (unit : String) (f : Frame Float) : String :=
  let whole x := Decimal.fixedText x 0
  longName f.command ++ ": " ++ whole f.perf.estimate ++ " " ++ unit ++
    " [" ++ whole f.perf.min ++ ", " ++ whole f.perf.max ++ "]"

def drawFrame (unit : String) (height : Nat) (f : Frame Float) : List Markup :=
  let x := Decimal.fixedText f.x 2
  let y := toString (rowTop height f.level)
  let box := Markup.element "rect"
    [("x", x), ("y", y), ("width", Decimal.fixedText f.width 2), ("height", toString rowHeight),
      ("fill", colour f.level), ("class", "cmd")]
    [.element "title" [] [.text (caption unit f)]]
  let label := Markup.element "text"
    [("x", x), ("y", y), ("dx", "4"), ("dy", "14"), ("font-size", "12"), ("fill", "white"),
      ("pointer-events", "none")]
    [.text (fit (shortName f.command) (room f.width))]
  if 35 < f.width then [box, label] else [box]

def draw (settings : Settings) (metric : Metric) (tree : CommandTree Float) : Markup :=
  let height := graphHeight tree.height
  let full := height + marginHeight
  let (w, h) := (toString settings.width, toString full)
  let title := Markup.element "text"
    [("x", toString (settings.width / 2)), ("y", "20"), ("font-size", "16"),
      ("text-anchor", "middle"), ("font-weight", "bold")]
    [.text settings.title]
  let footer := Markup.element "text"
    [("x", "10"), ("y", toString (height + 45)), ("font-size", "12")]
    [.text ("Metric: " ++ metric.name ++ " (" ++ metric.unit ++ ") | Total: " ++
      Decimal.fixedText tree.weight 0)]
  .element "svg"
    [("xmlns", "http://www.w3.org/2000/svg"), ("width", w), ("height", h),
      ("viewBox", "0 0 " ++ w ++ " " ++ h)]
    (.element "style" [] [.text style] :: title ::
      (tree.frames settings.width).flatMap (drawFrame metric.unit tree.height) ++ [footer])

def additive? (profile : Profile Float) (id : MetricId) : Except Fault Metric :=
  match profile.metric? id with
  | none => .error (.unknownMetric id)
  | some metric => if metric.isAdditive then .ok metric else .error (.notAdditive metric.name)

def ofProfile (settings : Settings) (profile : Profile Float) : Except Fault Markup :=
  if profile.entries.isEmpty then .error .noEntries
  else do
    let metric ← additive? profile settings.metric
    .ok (draw settings metric (.ofEntries settings.metric profile.entries))

end Flamegraph

end GpuProfile
