import GpuProfile.Trace.Warning

namespace GpuProfile

inductive SystemFault where
  | notFound
  | alreadyExists
  | notDirectory
  | isDirectory
  | nameTooLong
  | nulInName
  | other (code : Nat) (text : String)
  deriving DecidableEq, Repr

def SystemFault.message : SystemFault → String
  | .notFound => "No such file or directory (os error 2)"
  | .alreadyExists => "File exists (os error 17)"
  | .notDirectory => "Not a directory (os error 20)"
  | .isDirectory => "Is a directory (os error 21)"
  | .nameTooLong => "File name too long (os error 36)"
  | .nulInName => "file name contained an unexpected NUL byte"
  | .other code text => text ++ s!" (os error {code})"

inductive FileKind where
  | file
  | directory
  deriving DecidableEq, Repr

class Host (m : Type → Type) where
  kind? : String → m (Option FileKind)
  readFile : String → m (Except SystemFault (Option String))
  writeFile : String → String → m (Except SystemFault Unit)
  makeDirectory : String → m (Except SystemFault Unit)
  print : String → m Unit
  warn : Warning → m Unit
  now : m String

end GpuProfile
