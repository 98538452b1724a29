import GpuProfile.Json.Document
import GpuProfile.Json.Fault

/-!
Where on a page a fault shows. A page is read from left to right, and a fault shows as soon as
enough is seen of it; it is told by the line and the column of the last byte looked at.
-/

namespace GpuProfile.Json

structure Position where
  line : Nat
  column : Nat
  deriving DecidableEq, Repr

namespace Position

def start : Position := ⟨1, 0⟩

def advance (p : Position) (bytes : Nat) (c : Char) : Position :=
  if c = '\n' then ⟨p.line + 1, 0⟩ else ⟨p.line, p.column + bytes⟩

def after (cs : List Char) : Position := cs.foldl (fun p c => p.advance c.utf8Size c) start

def text (p : Position) : String := s!" at line {p.line} column {p.column}"

end Position

/-- How much of a page has been read: all but what is `left`. Where the end of a part shows only by
what follows it, the first byte of that is looked at too. -/
structure Reach where
  left : List Char
  ahead : Bool

def Reach.position (page : List Char) (reach : Reach) : Position :=
  let read := Position.after (page.take (page.length - reach.left.length))
  match reach.ahead, reach.left with
  | true, c :: _ => read.advance 1 c
  | _, _ => read

def behindMark (cs : List Char) : List Char := (skipSpace cs).drop 1

def behindValue (steps : Nat) (cs : List Char) : List Char := (Document.scan steps cs).2

def behindText (cs : List Char) : List Char :=
  match scanText cs with
  | some (_, rest) => rest
  | none => []

def behindKey (cs : List Char) : List Char := behindMark (behindText (behindMark cs))

def skipParts (skip : List Char → List Char) : Nat → List Char → List Char
  | 0, cs => cs
  | count + 1, cs => skipParts skip count (behindMark (skip cs))

def Step.enter (steps : Nat) (step : Step) (cs : List Char) : List Char :=
  let parts := behindMark cs
  let skipMembers := skipParts fun cs => behindValue steps (behindKey cs)
  match step with
  | .item index => skipParts (behindValue steps) index parts
  | .key index => behindMark (skipMembers index parts)
  | .value index => behindKey (skipMembers index parts)

def Fault.reach? (steps : Nat) (cs : List Char) : Fault → Option Reach
  | .malformed => none
  | .wrongType found _ | .wrongValue found _ =>
    match found with
    | .null | .boolean _ | .string _ => some ⟨behindValue steps cs, false⟩
    | .integer _ | .real _ => some ⟨behindValue steps cs, true⟩
    | .sequence | .map => some ⟨behindMark cs, false⟩
  | .wrongLength _ _ | .missingField _ => some ⟨behindValue steps cs, false⟩
  | .duplicateField _ => some ⟨skipSpace (behindText cs), true⟩

structure TextFault where
  fault : Fault
  position : Option Position
  deriving DecidableEq

def TextFault.message (f : TextFault) : String :=
  match f.position with
  | some position => f.fault.message ++ position.text
  | none => f.fault.message

def Rejection.onPage (page : List Char) (r : Rejection) : TextFault :=
  let steps := Document.stepsFor page
  let part := r.path.foldl (fun cs step => step.enter steps cs) page
  ⟨r.fault, (r.fault.reach? steps part).map (·.position page)⟩

end GpuProfile.Json
