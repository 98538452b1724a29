import GpuProfile.Flamegraph.Tree

/-!
Where the commands are drawn. A command spans a part of its parent in proportion to its value;
siblings stand side by side, the heaviest first, and a command too narrow to be seen is left out
with all that lies under it.
-/

namespace GpuProfile

structure Frame (α : Type) where
  level : Nat
  command : CommandIndex
  perf : Perf α
  x : α
  width : α

namespace CommandTree

variable {α : Type} [Quantity α]

def byWeight (children : List (UInt64 × CommandTree α)) : List (UInt64 × CommandTree α) :=
  children.mergeSort fun a b => (Quantity.rank b.2.weight a.2.weight).isLE

mutual

def arrange : CommandTree α → CommandTree α
  | node command perf children => node command perf (byWeight (arrangeAll children))

def arrangeAll : List (UInt64 × CommandTree α) → List (UInt64 × CommandTree α)
  | [] => []
  | (part, tree) :: rest => (part, arrange tree) :: arrangeAll rest

end

/-- The part of a parent's width that falls to a child. -/
def portion (child parent : α) : α :=
  let ratio := child / parent
  if Quantity.lt ratio 1 then ratio else 1

mutual

def place (level : Nat) (x width : α) : CommandTree α → List (Frame α)
  | node command perf children =>
    if Quantity.lt width Quantity.half then []
    else
      let weight := Quantity.atLeastZero perf.estimate
      ⟨level, command, perf, x, width⟩ ::
        if Quantity.lt 0 weight then placeAll (level + 1) x width weight children else []

def placeAll (level : Nat) (x width weight : α) : List (UInt64 × CommandTree α) → List (Frame α)
  | [] => []
  | (_, tree) :: rest =>
    let span := portion tree.weight weight * width
    place level x span tree ++ placeAll level (x + span) width weight rest

end

def frames (tree : CommandTree α) (width : Nat) : List (Frame α) :=
  tree.arrange.place 0 0 (Quantity.ofNat width)

end CommandTree

end GpuProfile
