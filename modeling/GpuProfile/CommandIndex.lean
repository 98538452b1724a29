import GpuProfile.Text.Blank
import GpuProfile.Text.Number
import GpuProfile.Json.Codec

namespace GpuProfile

structure CommandIndex where
  parts : List UInt64
  deriving DecidableEq, Repr

namespace CommandIndex

instance : Inhabited CommandIndex := ⟨⟨[]⟩⟩

instance : Ord CommandIndex := ⟨fun a b => compare a.parts b.parts⟩

theorem compare_def (a b : CommandIndex) : compare a b = compare a.parts b.parts := rfl

instance : Std.TransOrd CommandIndex where
  eq_swap := fun {_ _} => by simp only [compare_def]; exact Std.OrientedCmp.eq_swap
  isLE_trans := fun {_ _ _} h₁ h₂ => by
    simp only [compare_def] at *; exact Std.TransCmp.isLE_trans h₁ h₂

instance : Std.LawfulEqOrd CommandIndex where
  compare_self := fun {_} => by simp only [compare_def]; exact Std.ReflCmp.compare_self
  eq_of_compare := fun {a b} h => by
    cases a; cases b; simp only [compare_def, CommandIndex.mk.injEq] at *
    exact Std.LawfulEqCmp.eq_of_compare h

def depth (index : CommandIndex) : Nat := index.parts.length

def isEmpty (index : CommandIndex) : Bool := index.parts.isEmpty

def last? (index : CommandIndex) : Option UInt64 := index.parts.getLast?

def child (index : CommandIndex) (part : UInt64) : CommandIndex := ⟨index.parts ++ [part]⟩

def heads {α : Type} : List α → List (List α)
  | [] => []
  | x :: xs => [x] :: (heads xs).map (x :: ·)

def prefixes (index : CommandIndex) : List CommandIndex :=
  (heads index.parts).reverse.map CommandIndex.mk

def text (index : CommandIndex) : String :=
  ",".intercalate (index.parts.map fun part => toString part.toNat)

structure Unreadable where
  text : String
  cause : Text.NumberFault
  deriving DecidableEq

def Unreadable.message (e : Unreadable) : String :=
  "Invalid profiling data format: Invalid command index '" ++ e.text ++ "': " ++ e.cause.message

def readParts : List (List Char) → Except Text.NumberFault (List UInt64)
  | [] => .ok []
  | piece :: rest => do
    let part ← Text.readNatural (Text.trim piece)
    let parts ← readParts rest
    .ok (part.toUInt64 :: parts)

def ofText (s : String) : Except Unreadable CommandIndex :=
  match Text.trim s.toList with
  | [] => .ok ⟨[]⟩
  | cs => ((readParts (Text.pieces ',' cs)).map CommandIndex.mk).mapError
      fun cause => ⟨String.ofList cs, cause⟩

def codec : Json.Codec CommandIndex := (Json.Codec.list .uint64).map CommandIndex.mk parts

end CommandIndex

end GpuProfile
