import GpuProfile.Tool.Arguments
import GpuProfile.Tool.Inspect

namespace GpuProfile

namespace Tool

structure Exit where
  code : Nat
  errors : String
  deriving DecidableEq, Repr

namespace Exit

def success : Exit := ⟨0, ""⟩

def misused (misuse : Misuse) : Exit := ⟨2, "error: " ++ misuse.message ++ "\n"⟩

def indent (mark margin cause : String) : String :=
  mark ++ ("\n" ++ margin).intercalate (cause.splitToList (· == '\n'))

def numbered : Nat → List String → List String
  | _, [] => []
  | n, cause :: rest =>
    let digits := toString n
    let mark := String.ofList (List.replicate (5 - digits.length) ' ') ++ digits ++ ": "
    indent mark "       " cause :: numbered (n + 1) rest

def explain : List String → String
  | [] => ""
  | [error] => "Error: " ++ error ++ "\n"
  | error :: causes =>
    let listed := match causes with
      | [cause] => [indent "    " "    " cause]
      | causes => numbered 0 causes
    "Error: " ++ error ++ "\n\nCaused by:\n" ++ "\n".intercalate listed ++ "\n"

def failed (chain : List String) : Exit := ⟨1, explain chain⟩

end Exit

def programName : String := "gpu-perf-trace"

def helpText : String :=
  lines ["Per-command GPU performance metrics", "",
    "Usage: " ++ programName ++ " [OPTIONS] <COMMAND>", "",
    "Commands: compute, validate, schema, version"]

variable {m : Type → Type} [Monad m] [Host m]

def runCompute (options : ComputeOptions) : m Exit := do
  match ← checkOptions options with
  | .error e => return .failed [e.message]
  | .ok () =>
    match ← compute options with
    | .error e => return .failed e.chain
    | .ok _ => return .success

def runRequest : Request → m Exit
  | .compute options => runCompute options
  | .validate path => do
    match ← validate path with
    | .error e => return .failed e.chain
    | .ok () => return .success
  | .schema details => do
    Host.print (schemaText details)
    return .success
  | .version => do
    Host.print versionText
    return .success
  | .programVersion => do
    Host.print (lines [programName ++ " " ++ toolVersion])
    return .success
  | .help => do
    Host.print helpText
    return .success

def run (words : List String) : m Exit :=
  match Request.ofWords words with
  | .error misuse => return .misused misuse
  | .ok request => runRequest request

end Tool

end GpuProfile
