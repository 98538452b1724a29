import GpuProfile.SortedMap
import GpuProfile.Storage.Host
import GpuProfile.Storage.Path

/-!
A file system as a value: a map from places to files and directories, and the commands' view of
it. The working directory is its root. What goes wrong besides is part of the value.
-/

namespace GpuProfile

abbrev Place : Type := List String

inductive DiskItem where
  | bytes (content : ByteArray)
  | directory

namespace DiskItem

def file (text : String) : DiskItem := .bytes text.toUTF8

def kind : DiskItem → FileKind
  | .bytes _ => .file
  | .directory => .directory

end DiskItem

/-- What goes wrong with a call that the disk could answer. A call that is broken off has opened its file
and moved so many bytes. -/
inductive Trouble where
  | refused (cause : SystemFault)
  | brokenOff (size : Nat) (cause : SystemFault)

def Trouble.cause : Trouble → SystemFault
  | .refused cause => cause
  | .brokenOff _ cause => cause

structure Disk where
  items : SortedMap Place DiskItem
  troubles : List (Option Trouble)

namespace Disk

def empty : Disk := ⟨.empty, []⟩

def item? (d : Disk) (place : Place) : Option DiskItem :=
  if place = [] then some .directory else d.items.get? place

def insert (d : Disk) (place : Place) (item : DiskItem) : Disk :=
  { d with items := d.items.insert place item }

def maxName : Nat := 255

def maxPath : Nat := 4096

def follow (d : Disk) : Place → List String → Except SystemFault Place
  | place, [] => .ok place
  | place, part :: rest =>
    match d.item? place with
    | none => .error .notFound
    | some (.bytes _) => .error .notDirectory
    | some .directory =>
      if Path.isSilent part then follow d place rest
      else if part = ".." then follow d place.dropLast rest
      else if maxName < part.utf8ByteSize then .error .nameTooLong
      else follow d (place ++ [part]) rest

def partsOf (path : String) : Except SystemFault (List String) :=
  if path.toList.contains '\x00' then .error .nulInName
  else if path.isEmpty then .error .notFound
  else if maxPath ≤ path.utf8ByteSize then .error .nameTooLong
  else .ok (Path.parts path)

def newPartsOf (path : String) : Except SystemFault (List String) := do
  let parts ← partsOf path
  .ok (parts.reverse.dropWhile String.isEmpty).reverse

def locate (d : Disk) (path : String) : Except SystemFault Place := do
  d.follow [] (← partsOf path)

def find (d : Disk) (path : String) : Except SystemFault DiskItem := do
  let place ← d.locate path
  match d.item? place with
  | some item => .ok item
  | none => .error .notFound

def read (d : Disk) (path : String) : Except SystemFault (Option String) := do
  match ← d.find path with
  | .bytes content => .ok (String.fromUTF8? content)
  | .directory => .ok none

/-- The place of a file that is about to be written. A slash at the end asks for a directory,
whatever is there; only the directory above is looked for. -/
def target (d : Disk) (path : String) : Except SystemFault Place := do
  let parts ← newPartsOf path
  if path.endsWith "/" then
    let _ ← d.follow [] (parts.dropLast ++ ["."])
    .error .isDirectory
  else
    let place ← d.follow [] parts
    match d.item? place with
    | some .directory => .error .isDirectory
    | _ => .ok place

/-- Opening a file empties it, so a write that is broken off leaves the beginning of the text there. -/
def write (d : Disk) (path content : String) (trouble : Option Trouble) : Except SystemFault Unit × Disk :=
  match d.target path, trouble with
  | .error e, _ => (.error e, d)
  | .ok place, none => (.ok (), d.insert place (.file content))
  | .ok _, some (.refused e) => (.error e, d)
  | .ok place, some (.brokenOff size e) => (.error e, d.insert place (.bytes (content.toUTF8.extract 0 size)))

def addDirectory (d : Disk) (path : String) : Except SystemFault Disk := do
  let place ← d.follow [] (← newPartsOf path)
  if (d.item? place).isSome then .error .alreadyExists
  else .ok (d.insert place .directory)

def put (d : Disk) (place : Place) (item : DiskItem) : Disk :=
  let above := ((List.range place.length).map place.take).filter (· ≠ [])
  (above.foldl (fun d place => d.insert place .directory) d).insert place item

def files (d : Disk) : List (String × String) :=
  d.items.toList.filterMap fun (place, item) =>
    match item with
    | .bytes content => (String.fromUTF8? content).map ("/".intercalate place, ·)
    | .directory => none

end Disk

structure World where
  disk : Disk
  printed : String
  warnings : List Warning
  time : String

namespace World

def call {τ : Type} (step : Option Trouble → Disk → τ × Disk) : StateM World τ :=
  fun w =>
    let (answer, disk) := step w.disk.troubles.head?.join { w.disk with troubles := w.disk.troubles.tail }
    (answer, { w with disk })

instance : Host (StateM World) where
  kind? path := call fun trouble d =>
    (if trouble.isSome then none else (d.find path).toOption.map DiskItem.kind, d)
  readFile path := call fun trouble d =>
    match trouble with
    | none => (d.read path, d)
    | some (.refused e) => (.error e, d)
    | some (.brokenOff _ _) => ((d.find path).map fun _ => none, d)
  writeFile path content := call fun trouble d => d.write path content trouble
  makeDirectory path := call fun trouble d =>
    match trouble, d.addDirectory path with
    | none, .ok d' => (.ok (), d')
    | none, .error e => (.error e, d)
    | some t, _ => (.error t.cause, d)
  print text := modify fun w => { w with printed := w.printed ++ text }
  warn w := modify fun world => { world with warnings := world.warnings ++ [w] }
  now := do return (← get).time

end World

end GpuProfile
