import GpuProfile.Tool.Run
import Std.Time

namespace GpuProfile

namespace Native

def fault (code : UInt32) (text : String) : SystemFault :=
  match code.toNat with
  | 2 => .notFound
  | 17 => .alreadyExists
  | 20 => .notDirectory
  | 21 => .isDirectory
  | 36 => .nameTooLong
  | code => .other code text

def faultOf : IO.Error → SystemFault
  | .alreadyExists _ code text | .interrupted _ code text | .noFileOrDirectory _ code text
  | .invalidArgument _ code text | .permissionDenied _ code text | .resourceExhausted _ code text
  | .inappropriateType _ code text | .noSuchThing _ code text => fault code text
  | .otherError code text | .resourceBusy code text | .resourceVanished code text
  | .unsupportedOperation code text | .hardwareFault code text
  | .unsatisfiedConstraints code text | .illegalOperation code text
  | .protocolError code text | .timeExpired code text => fault code text
  | .unexpectedEof => .other 0 "unexpected end of file"
  | .userError text => .other 0 text

def attempt {τ : Type} (act : IO τ) : IO (Except SystemFault τ) := do
  try
    return .ok (← act)
  catch e =>
    return .error (faultOf e)

def digits (width n : Nat) : String :=
  let text := toString n
  String.ofList (List.replicate (width - text.length) '0') ++ text

def fraction (nanoseconds : Nat) : String :=
  if nanoseconds = 0 then ""
  else if nanoseconds % 1000000 = 0 then "." ++ digits 3 (nanoseconds / 1000000)
  else if nanoseconds % 1000 = 0 then "." ++ digits 6 (nanoseconds / 1000)
  else "." ++ digits 9 nanoseconds

def stamp (t : Std.Time.PlainDateTime) : String :=
  let field (n : Int) : String := digits 2 n.toNat
  digits 4 (t.year : Int).toNat ++ "-" ++ field t.month.val ++ "-" ++ field t.day.val ++ "T" ++
    field t.hour.val ++ ":" ++ field t.minute.val ++ ":" ++ field t.second.val ++
    fraction t.nanosecond.val.toNat

open Std.Time in
def now : IO String :=
  return stamp (.ofWallTime ((← Timestamp.now).toWallTime .zero)) ++ "+00:00"

end Native

open Native in
instance : Host IO where
  kind? path := do
    match ← attempt (do (← IO.FS.Handle.mk path .read).read 1) with
    | .ok _ => return some .file
    | .error .isDirectory => return some .directory
    | .error _ => return none
  readFile path := do
    match ← attempt (do (← IO.FS.Handle.mk path .read).readBinToEnd) with
    | .ok bytes => return .ok (String.fromUTF8? bytes)
    | .error .isDirectory => return .ok none
    | .error e => return .error e
  writeFile path content := attempt (IO.FS.writeFile path content)
  makeDirectory path := attempt (IO.FS.createDir path)
  print text := IO.print text
  warn w := IO.eprintln ("warning: " ++ w.message)
  now := Native.now

end GpuProfile

def main (words : List String) : IO UInt32 := do
  let exit ← GpuProfile.Tool.run words
  IO.eprint exit.errors
  return UInt32.ofNat exit.code
