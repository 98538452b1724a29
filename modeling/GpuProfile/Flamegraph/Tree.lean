import GpuProfile.Profile

namespace GpuProfile

inductive CommandTree (α : Type) where
  | node (command : CommandIndex) (perf : Perf α) (children : List (UInt64 × CommandTree α))

namespace CommandTree

variable {α : Type}

def command : CommandTree α → CommandIndex
  | node command _ _ => command

def perf : CommandTree α → Perf α
  | node _ perf _ => perf

def children : CommandTree α → List (UInt64 × CommandTree α)
  | node _ _ children => children

mutual

def height : CommandTree α → Nat
  | node _ _ children => heightAll children

def heightAll : List (UInt64 × CommandTree α) → Nat
  | [] => 0
  | (_, tree) :: rest => max (height tree + 1) (heightAll rest)

end

variable [Quantity α]

def weight (tree : CommandTree α) : α := Quantity.atLeastZero tree.perf.estimate

def leaf (command : CommandIndex) : CommandTree α := node command (.exact 0) []

def insert (value : Perf α) : List UInt64 → CommandTree α → CommandTree α
  | [], node command _ children => node command value children
  | part :: path, node command perf children =>
    node command perf <| Pairs.alter part
      (fun found => insert value path (found.getD (leaf (command.child part)))) children

def total : CommandTree α → CommandTree α
  | node command _ children =>
    node command (.exact (Quantity.sum (children.map fun c => c.2.weight))) children

def ofEntries (metric : MetricId) (entries : List (Entry α)) : CommandTree α :=
  total <| entries.foldl
    (fun tree e =>
      match e.values.get? metric with
      | some value => tree.insert value e.command.parts
      | none => tree)
    (leaf ⟨[]⟩)

end CommandTree

end GpuProfile
