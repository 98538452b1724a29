import GpuProfile.Quantity
import GpuProfile.Trace

namespace GpuProfile

def bisect (before : Nat → Bool) (base size : Nat) : Nat :=
  if size = 0 then base
  else if size = 1 then if before base then base + 1 else base
  else
    let half := size / 2
    bisect before (if before (base + half) then base + half else base) (size - half)
termination_by size

/-- Counts are words of 32 bits, and start over at zero. -/
def nextCount (count : Nat) : Nat := (count + 1) % UInt32.size

namespace Counter

variable {α : Type} (c : Counter α)

def firstCandidate (start : Nat) : Nat :=
  max 1 (bisect (fun i => decide (c.time i < start)) 0 c.timestamps.size)

def touching (s : Slice) : List Nat :=
  let first := c.firstCandidate s.start
  (List.range' first (c.timestamps.size - first)).takeWhile fun i =>
    decide ((c.interval i).start ≤ s.stop)

def concurrency (slices : List Slice) : Array Nat :=
  slices.foldl
    (fun counts s => (c.touching s).foldl (fun counts i => counts.modify i nextCount) counts)
    (Array.replicate c.timestamps.size 0)

end Counter

def share {α : Type} [Quantity α] (count : Nat) : α :=
  if 1 < count then 1 / Quantity.ofNat count else 1

end GpuProfile
