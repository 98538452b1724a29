import GpuProfile.Json.Numeral
import GpuProfile.Json.Text

/-!
JSON texts as they stand on the page. A document keeps the order of members, repeated keys and the
spelling of numbers and strings, and it shows where the text stops being JSON, so that a reader
may use all that comes before that place.
-/

namespace GpuProfile.Json

inductive Label where
  | written (text : List Char)
  | torn (text : List Char)
  deriving DecidableEq, Repr

/-- A container that is not `closed` breaks off after the parts listed; nothing behind such a
place belongs to the document. An object breaks off where a member does not start with a text. -/
inductive Document where
  | null
  | bool (value : Bool)
  | number (numeral : Numeral)
  | string (written : List Char)
  | array (items : List Document) (closed : Bool)
  | object (members : List (Label × Document)) (closed : Bool)
  | broken

def isSpace (c : Char) : Bool := c = ' ' || c = '\n' || c = '\t' || c = '\r'

def skipSpace (cs : List Char) : List Char := cs.dropWhile isSpace

namespace Document

mutual

def scan : Nat → List Char → Document × List Char
  | 0, _ => (.broken, [])
  | steps + 1, cs =>
    match skipSpace cs with
    | 'n' :: 'u' :: 'l' :: 'l' :: rest => (.null, rest)
    | 't' :: 'r' :: 'u' :: 'e' :: rest => (.bool true, rest)
    | 'f' :: 'a' :: 'l' :: 's' :: 'e' :: rest => (.bool false, rest)
    | '"' :: rest =>
      match scanText rest with
      | some (written, rest) => (.string written, rest)
      | none => (.broken, [])
    | '[' :: rest =>
      match skipSpace rest with
      | ']' :: rest => (.array [] true, rest)
      | rest =>
        let (items, closed, rest) := scanItems steps rest
        (.array items closed, rest)
    | '{' :: rest =>
      match skipSpace rest with
      | '}' :: rest => (.object [] true, rest)
      | rest =>
        let (members, closed, rest) := scanMembers steps rest
        (.object members closed, rest)
    | rest =>
      match Numeral.scan rest with
      | some (numeral, rest) => (.number numeral, rest)
      | none => (.broken, [])

def scanItems : Nat → List Char → List Document × Bool × List Char
  | 0, _ => ([], false, [])
  | steps + 1, cs =>
    let (item, rest) := scan steps cs
    match skipSpace rest with
    | ',' :: rest =>
      let (items, closed, rest) := scanItems steps rest
      (item :: items, closed, rest)
    | ']' :: rest => ([item], true, rest)
    | _ => ([item], false, [])

def scanMembers : Nat → List Char → List (Label × Document) × Bool × List Char
  | 0, _ => ([], false, [])
  | steps + 1, cs =>
    match skipSpace cs with
    | '"' :: rest =>
      match scanText rest with
      | none => ([(.torn rest, .broken)], false, [])
      | some (key, rest) =>
        match skipSpace rest with
        | ':' :: rest =>
          let (value, rest) := scan steps rest
          match skipSpace rest with
          | ',' :: rest =>
            let (members, closed, rest) := scanMembers steps rest
            ((.written key, value) :: members, closed, rest)
          | '}' :: rest => ([(.written key, value)], true, rest)
          | _ => ([(.written key, value)], false, [])
        | _ => ([(.written key, .broken)], false, [])
    | _ => ([], false, [])

end

/-- The steps that a page takes. Each of them takes a character or passes on to a step that does,
so twice the length of the page bounds their number. -/
def stepsFor (page : List Char) : Nat := 2 * page.length + 2

def ofText (text : String) : Document × Bool :=
  let cs := text.toList
  let (document, rest) := scan (stepsFor cs) cs
  (document, (skipSpace rest).isEmpty)

mutual

def complete : Document → Bool
  | .broken => false
  | .array items closed => closed && completeItems items
  | .object members closed => closed && completeMembers members
  | _ => true

def completeItems : List Document → Bool
  | [] => true
  | item :: rest => complete item && completeItems rest

def completeMembers : List (Label × Document) → Bool
  | [] => true
  | (_, value) :: rest => complete value && completeMembers rest

end

end Document

end GpuProfile.Json
