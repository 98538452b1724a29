import GpuProfile.Json.Codec

namespace GpuProfile.Json

structure Field (τ : Type) where
  name : String
  aliases : List String
  codec : Codec τ
  fallback : Option τ

def Field.accepts {τ : Type} (field : Field τ) (key : String) : Bool :=
  key == field.name || field.aliases.contains key

inductive Fields : List Type → Type 1 where
  | nil : Fields []
  | cons {τ : Type} {τs : List Type} (field : Field τ) (rest : Fields τs) : Fields (τ :: τs)

def Tuple : List Type → Type
  | [] => Unit
  | τ :: τs => τ × Tuple τs

def Slots : List Type → Type
  | [] => Unit
  | τ :: τs => Option τ × Slots τs

namespace Fields

variable {ν : Type} [Source ν] {τs : List Type}

def required {τ : Type} (name : String) (aliases : List String) (codec : Codec τ)
    (rest : Fields τs) : Fields (τ :: τs) :=
  .cons ⟨name, aliases, codec, none⟩ rest

def optional {τ : Type} (name : String) (aliases : List String) (codec : Codec τ) (fallback : τ)
    (rest : Fields τs) : Fields (τ :: τs) :=
  .cons ⟨name, aliases, codec, some fallback⟩ rest

def noSlots : {τs : List Type} → Fields τs → Slots τs
  | _, .nil => ()
  | _, .cons _ rest => (none, rest.noSlots)

def size : {τs : List Type} → Fields τs → Nat
  | _, .nil => 0
  | _, .cons _ rest => rest.size + 1

def fill (index : Nat) (key : String) (source : ν) :
    {τs : List Type} → Fields τs → Slots τs → Option (Except Rejection (Slots τs))
  | _, .nil, _ => none
  | _, .cons field rest, (slot, slots) =>
    if field.accepts key then
      some <| if slot.isSome then .error ⟨.duplicateField field.name, [.key index]⟩
        else (field.codec.readAt (.value index) source).map fun x => (some x, slots)
    else (rest.fill index key source slots).map fun filled => filled.map (slot, ·)

def fillAll (fields : Fields τs) : Nat → List (Key × ν) → Slots τs → Except Rejection (Slots τs)
  | _, [], slots => .ok slots
  | index, (key, source) :: rest, slots => do
    match key.text with
    | none => .error .malformed
    | some text =>
      match fields.fill index text source slots with
      | some filled => fields.fillAll (index + 1) rest (← filled)
      | none =>
        if Source.whole source then fields.fillAll (index + 1) rest slots else .error .malformed

def settle : {τs : List Type} → Fields τs → Slots τs → Except Rejection (Tuple τs)
  | _, .nil, _ => .ok ()
  | _, .cons field rest, (slot, slots) =>
    match slot.or field.fallback with
    | none => .error (Fault.missingField field.name).here
    | some x => (rest.settle slots).map (x, ·)

def readItems (short : Nat → Fault) (closed : Bool) :
    {τs : List Type} → Fields τs → Nat → List ν → Except Rejection (Tuple τs × List ν)
  | _, .nil, _, items => .ok ((), items)
  | _, .cons field rest, index, item :: items => do
    let x ← field.codec.readAt (.item index) item
    let (xs, left) ← rest.readItems short closed (index + 1) items
    .ok ((x, xs), left)
  | _, .cons field rest, index, [] => do
    if closed then
      match field.fallback with
      | none => .error (short index).here
      | some x =>
        let (xs, left) ← rest.readItems short closed (index + 1) ([] : List ν)
        .ok ((x, xs), left)
    else .error .malformed

def members : {τs : List Type} → Fields τs → Tuple τs → List (String × Value)
  | _, .nil, _ => []
  | _, .cons field rest, (x, xs) => (field.name, field.codec.write x) :: rest.members xs

end Fields

namespace Codec

variable {τs : List Type} {ρ : Type}

/-- A record with a name for messages. -/
def record (name : String) (fields : Fields τs) (build : Tuple τs → ρ) (parts : ρ → Tuple τs) :
    Codec ρ where
  read {ν} _ source :=
    match Source.view source with
    | .object members closed => do
      let slots ← fields.fillAll 0 members fields.noSlots
      if closed then (fields.settle slots).map build else .error .malformed
    | .array items closed => do
      let short count := Fault.wrongLength count
        ("struct " ++ name ++ " with " ++ toString fields.size ++ " elements")
      let (xs, left) ← fields.readItems short closed 0 items
      if left.isEmpty && closed then .ok (build xs)
      else if Source.counted ν then
        .error (Fault.wrongLength items.length "fewer elements in array").here
      else .error .malformed
    | other => .error (other.mismatch ("struct " ++ name))
  write x := .object (fields.members (parts x))

end Codec

end GpuProfile.Json
