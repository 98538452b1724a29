import GpuProfile.Decimal.Fixed
import GpuProfile.Profile
import GpuProfile.Text.Padding
import GpuProfile.Text.Upper

namespace GpuProfile

namespace Summary

structure Row (α : Type) where
  command : CommandIndex
  perf : Perf α

variable {α : Type} [AsDouble α]

def Row.before (a b : Row α) : Bool :=
  ((compare (AsDouble.place b.perf.estimate) (AsDouble.place a.perf.estimate)).then
    (compare a.command b.command)).isLE

def Row.amounts (r : Row α) : Perf Float := r.perf.map AsDouble.value

/-- The commands that have a value for the metric. Only sums can be one less than zero; elsewhere
that marks a missing value. -/
def rows (profile : Profile α) (metric : Metric) : List (Row α) :=
  let found := profile.entries.filterMap fun e =>
    (e.values.get? metric.id).map fun perf => Row.mk e.command perf
  (found.filter fun r => metric.isAdditive || !r.amounts.isUnknown).mergeSort Row.before

def leastNormal : Float := Float.ofBits 0x0010000000000000

def whole (rows : List (Row α)) : Float :=
  let sum := Quantity.sum ((rows.filter (·.command.depth == 1)).map (·.amounts.estimate))
  if leastNormal < sum then sum else leastNormal

def colour : Nat → String
  | 0 | 1 => "\x1b[31;1m"
  | 2 => "\x1b[33m"
  | 3 => "\x1b[35m"
  | _ => "\x1b[90m"

def plain : String := "\x1b[0m"

def shorten (text : String) : String :=
  if 24 < text.length then "..." ++ String.ofList (text.toList.drop (text.length - 21)) else text

def line (cells : List String) : String := "  ┃ " ++ " ┃ ".intercalate cells ++ " ┃"

def rule (left middle right : String) : String :=
  let bar n := String.ofList (List.replicate n '━')
  "  " ++ left ++ middle.intercalate [bar 26, bar 16, bar 16, bar 16, bar 9] ++ right

def Row.text (total : Option Float) (r : Row α) : String :=
  let amount x := Text.padLeft 14 (Decimal.fixedText x 2)
  let share := match total with
    | some total => Text.padLeft 6 (Decimal.fixedText (r.amounts.estimate / total * 100) 1) ++ "%"
    | none => Text.padLeft 7 "-"
  line [colour r.command.depth ++ Text.padRight 24 (shorten r.command.text) ++ plain,
    amount r.amounts.estimate, amount r.amounts.min, amount r.amounts.max, share]

def heading : String :=
  line [Text.padRight 24 "Command (Heaviest First)", Text.centred 14 "ESTIMATE",
    Text.centred 14 "MIN", Text.centred 14 "MAX", Text.centred 7 "%"]

def table (metric : Metric) (rows : List (Row α)) (limit : Nat) : List String :=
  let total := if metric.isAdditive then some (whole rows) else none
  ["  " ++ Text.upperCase metric.name ++ " (" ++ metric.unit ++ ")", rule "┏" "┳" "┓", heading,
    rule "┣" "╋" "┫"] ++ (rows.take limit).map (Row.text total) ++ [rule "┗" "┻" "┛"] ++
    if limit < rows.length then
      ["", s!"   (Showing top {limit} of {rows.length} command nodes)"]
    else []

def ofProfile (profile : Profile α) (id : MetricId) (limit : Nat) : String :=
  match profile.metric? id with
  | none => s!"  Unknown metric id {id.toInt}"
  | some metric => "\n".intercalate (table metric (rows profile metric) limit)

end Summary

end GpuProfile
