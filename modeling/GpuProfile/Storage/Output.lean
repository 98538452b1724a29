import GpuProfile.Report
import GpuProfile.Storage.Host
import GpuProfile.Storage.Path

namespace GpuProfile

inductive PathFault where
  | empty
  | directory (path : String)
  | uncreatable (path : String) (cause : SystemFault)
  deriving DecidableEq

def PathFault.message : PathFault → String
  | .empty => "Path is empty"
  | .directory path => "Path is a directory: " ++ path
  | .uncreatable path cause => "Cannot create directory " ++ path ++ ": " ++ cause.message

inductive OutputFault where
  | file (cause : SystemFault)
  | unread (cause : SystemFault)
  | json (fault : Json.TextFault)
  | path (fault : PathFault)
  deriving DecidableEq

namespace OutputFault

def message : OutputFault → String
  | .file cause => "Failed to write file: " ++ cause.message
  | .unread cause => "Failed to serialize JSON: " ++ cause.message
  | .json fault => "Failed to serialize JSON: " ++ fault.message
  | .path fault => "Invalid output path: " ++ fault.message

def chain : OutputFault → List String
  | .file cause => [message (.file cause), cause.message]
  | .unread cause => [message (.unread cause), cause.message]
  | .json fault => [message (.json fault), fault.message]
  | .path fault => [message (.path fault)]

end OutputFault

namespace Output

variable {m : Type → Type} [Monad m] [Host m]

def isDirectory (path : String) : m Bool := do
  return (← Host.kind? path) == some .directory

def ensureDirectory (path : String) : m (Except SystemFault Unit) := do
  match ← Host.makeDirectory path with
  | .ok () => return .ok ()
  | .error e => if ← isDirectory path then return .ok () else return .error e

def ensureDirectories : Nat → String → m (Except SystemFault Unit)
  | 0, _ => return .error .notFound
  | steps + 1, path => do
    if path.isEmpty then return .ok ()
    match ← Host.makeDirectory path with
    | .ok () => return .ok ()
    | .error .notFound =>
      match Path.parent? path with
      | none => return .error .notFound
      | some above =>
        match ← ensureDirectories steps above with
        | .error e => return .error e
        | .ok () => ensureDirectory path
    | .error e => if ← isDirectory path then return .ok () else return .error e

def prepare (path : String) : m (Except PathFault Unit) := do
  if path.isEmpty then return .error .empty
  if ← isDirectory path then return .error (.directory path)
  match Path.parent? path with
  | none | some "" => return .ok ()
  | some above =>
    if (← Host.kind? above).isSome then return .ok ()
    let made ← ensureDirectories ((Path.parts above).length + 1) above
    return made.mapError (.uncreatable above)

def write (path content : String) : m (Except OutputFault Unit) := do
  match ← prepare path with
  | .error e => return .error (.path e)
  | .ok () => return (← Host.writeFile path content).mapError .file

def writeReport (path : String) (report : Report Float) : m (Except OutputFault Unit) :=
  write path report.text

def readReport (path : String) : m (Except OutputFault (Report Float)) := do
  match ← Host.readFile path with
  | .error e => return .error (.file e)
  | .ok none =>
    if ← isDirectory path then return .error (.unread .isDirectory)
    else return .error (.json ⟨.malformed, none⟩)
  | .ok (some content) => return (Report.ofText content).mapError .json

end Output

end GpuProfile
