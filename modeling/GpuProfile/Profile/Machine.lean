import GpuProfile.Profile.Compute

namespace GpuProfile

inductive Halt where
  | outOfBounds
  | belowZero
  | beyondWord
  | noLength
  | defect (defect : Defect)

namespace Machine

def difference (a b : Nat) : Except Halt Nat := if b ≤ a then .ok (a - b) else .error .belowZero

def sum (limit a b : Nat) : Except Halt Nat := if a + b < limit then .ok (a + b) else .error .beyondWord

variable {α σ : Type}

def time (c : Counter α) (i : Nat) : Except Halt Nat :=
  if i < c.timestamps.size then .ok (c.time i) else .error .outOfBounds

def interval (c : Counter α) (i : Nat) : Except Halt Interval := do
  let start ← time c (← difference i 1)
  let stop ← time c i
  .ok ⟨start, stop⟩

def visit (c : Counter α) (s : Slice) (step : σ → Nat → Interval → Except Halt σ) :
    List Nat → σ → Except Halt σ
  | [], x => .ok x
  | i :: rest, x => do
    let v ← interval c i
    if s.stop < v.start then .ok x
    else
      let x ← step x i v
      visit c s step rest x

def candidates (c : Counter α) (s : Slice) : List Nat :=
  List.range' (c.firstCandidate s.start) (c.timestamps.size - c.firstCandidate s.start)

def countUp (counts : Array Nat) (i : Nat) : Except Halt (Array Nat) :=
  if h : i < counts.size then do
    let count ← sum UInt32.size counts[i] 1
    .ok (counts.set i count)
  else .error .outOfBounds

def concurrency (c : Counter α) (slices : List Slice) : Except Halt (Array Nat) :=
  slices.foldlM
    (fun counts s => visit c s (fun counts i _ => countUp counts i) (candidates c s) counts)
    (Array.replicate c.timestamps.size 0)

variable [Quantity α]

def value (c : Counter α) (i : Nat) : Except Halt α :=
  if i < c.values.size then .ok (c.value i) else .error .outOfBounds

def coverage (v : Interval) (s : Slice) : Except Halt α := do
  let covered ← difference (Nat.min v.stop s.stop) (Nat.max v.start s.start)
  let length ← difference v.stop v.start
  if length = 0 then .error .noLength else .ok (Quantity.ofNat covered / Quantity.ofNat length)

def credit (s : Slice) (i : Nat) (v : Interval) (count : Nat) (w : Weights α) :
    Except Halt (Weights α) :=
  if s.start < v.start ∧ v.stop < s.stop then
    .ok { estimate := w.estimate.insert i (share count)
          min := if count ≤ 1 then w.min.insert i 1 else w.min
          max := w.max.insert i 1 }
  else do
    let part ← coverage v s
    .ok { w with
      estimate := w.estimate.alter i fun found => found.getD 0 + part * share count
      max := w.max.insert i 1 }

def weights (slices : List Slice) (c : Counter α) (counts : Array Nat) : Except Halt (Weights α) :=
  slices.foldlM
    (fun w s => visit c s (fun w i v => credit s i v (counts.getD i 0) w) (candidates c s) w)
    .none

def sampleSum (weights : SampleWeights α) (c : Counter α) : Except Halt α := do
  let terms ← weights.toList.mapM fun (i, weight) => do
    let x ← value c i
    .ok (x * weight)
  .ok (Quantity.sum terms)

def sampleMean (weights : SampleWeights α) (c : Counter α) : Except Halt (Mean α) :=
  weights.toList.foldlM
    (fun m (i, weight) => do
      let v ← interval c i
      let length ← difference v.stop v.start
      let x ← value c i
      let duration : α := Quantity.ofNat length
      .ok ⟨m.weighted + x * duration * weight, m.weight + duration * weight⟩)
    ⟨0, 0⟩

def aggregate? (weights : SampleWeights α) (c : Counter α) : Operator → Except Halt (Option α)
  | .summation => (sampleSum weights c).map some
  | .timeWeightedAverage => (sampleMean weights c).map Mean.quotient?
  | .unsupported => .ok none

def perf? (w : Weights α) (c : Counter α) (op : Operator) : Except Halt (Option (Perf α)) := do
  match ← aggregate? w.estimate c op with
  | none => .ok none
  | some estimate =>
    let least ← aggregate? w.min c op
    let most ← aggregate? w.max c op
    let others := [least, most].filterMap id
    .ok (some ⟨estimate, others.foldl Quantity.lesser estimate, others.foldl Quantity.greater estimate⟩)

def addBusy (b : Busy) (s : Slice) : Except Halt Busy :=
  if timelineEnd ≤ b.gpu + s.duration then .error (.defect (.busyOverflow s.group s.ts))
  else if s.stop ≤ b.reach ∧ s.start < b.reach then .ok { b with gpu := b.gpu + s.duration }
  else do
    let more ← difference s.stop (max s.start b.reach)
    let wall ← sum timelineEnd b.wall more
    .ok { gpu := b.gpu + s.duration, wall := wall, reach := max b.reach s.stop }

def setTimes (p : Prepared) : List GroupId → Leaves α → Except Halt (Leaves α)
  | [], leaves => .ok leaves
  | group :: rest, leaves => do
    let b ← (p.ofGroup group).foldlM addBusy .none
    setTimes p rest (leaves.setBusy group b)

def metric (place : Nat) (c : Counter α) : Except Halt Metric := do
  let id ← sum (Int32.maxValue.toNatClampNeg + 1) 2 place
  .ok ⟨Int32.ofNat id, c.name, c.unit, c.operator⟩

def setCounter (p : Prepared) (metric : Metric) (c : Counter α) (leaves : Leaves α) :
    Except Halt (Leaves α) := do
  let counts ← concurrency c p.slices
  leaves.keys.foldlM
    (fun leaves group => do
      let w ← weights (p.ofGroup group) c counts
      let perf ← perf? w c c.operator
      .ok (leaves.set group metric.id perf))
    leaves

def setCounters (p : Prepared) :
    Nat → List (Counter α) → Leaves α → Except Halt (List Metric × Leaves α)
  | _, [], leaves => .ok ([], leaves)
  | place, c :: rest, leaves => do
    let metric ← metric place c
    let leaves ← if c.operator.isSupported then setCounter p metric c leaves else .ok leaves
    let (metrics, leaves) ← setCounters p (place + 1) rest leaves
    .ok (metric :: metrics, leaves)

def compute (t : Timeline) (cs : List (Counter α)) : Except Halt (Profile α) := do
  (checkTraces t cs).mapError .defect
  let p := t.prepare
  let _ ← difference t.slices.length p.slices.length
  let leaves ← setTimes p (Leaves.ofGroups t.groups : Leaves α).keys (.ofGroups t.groups)
  let (metrics, leaves) ← setCounters p 0 cs leaves
  let metrics := Metric.gpuTime :: Metric.wallTime :: metrics
  .ok ⟨metrics, leaves.merge metrics⟩

end Machine

end GpuProfile
