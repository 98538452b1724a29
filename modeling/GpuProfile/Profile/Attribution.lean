import GpuProfile.Profile.Overlap
import GpuProfile.SortedMap

/-!
Attribution of samples to the slices of a group. Samples rarely line up with slices, so three sets
of weights are kept: what the group surely caused, what it caused by estimate, and all it may have
caused.
-/

namespace GpuProfile

abbrev SampleWeights (α : Type) : Type := SortedMap Nat α

structure Weights (α : Type) where
  estimate : SampleWeights α
  min : SampleWeights α
  max : SampleWeights α

namespace Weights

variable {α : Type} [Quantity α]

def none : Weights α := ⟨.empty, .empty, .empty⟩

def isEmpty (w : Weights α) : Bool := w.estimate.isEmpty && w.min.isEmpty && w.max.isEmpty

def coverage (v : Interval) (s : Slice) : α :=
  if v.stop ≠ v.start then
    Quantity.ofNat (Nat.min v.stop s.stop - Nat.max v.start s.start) /
      Quantity.ofNat (v.stop - v.start)
  else 0

/-- Credits a slice with sample `i`, whose interval `count` slices touch, this one among them. A
sample whose interval lies strictly inside the slice has its full share, and is certain when no
other slice touches it; any other adds its share of the part covered. -/
def credit (s : Slice) (i : Nat) (v : Interval) (count : Nat) (w : Weights α) : Weights α :=
  if s.start < v.start ∧ v.stop < s.stop then
    { estimate := w.estimate.insert i (share count)
      min := if count ≤ 1 then w.min.insert i 1 else w.min
      max := w.max.insert i 1 }
  else
    { w with
      estimate := w.estimate.alter i fun found => found.getD 0 + coverage v s * share count
      max := w.max.insert i 1 }

def ofSlices (slices : List Slice) (c : Counter α) (concurrency : Array Nat) : Weights α :=
  slices.foldl
    (fun w s => (c.touching s).foldl
      (fun w i => w.credit s i (c.interval i) (concurrency.getD i 0)) w)
    none

end Weights

end GpuProfile
