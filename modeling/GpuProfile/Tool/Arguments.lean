import GpuProfile.Text.Number
import GpuProfile.Tool.Compute

namespace GpuProfile

namespace Tool

inductive Request where
  | compute (options : ComputeOptions)
  | validate (path : String)
  | schema (details : Bool)
  | version
  | programVersion
  | help

inductive Misuse where
  | noCommand
  | unexpected (word : String)
  | missingValue (option : String)
  | superfluousValue (option : String)
  | repeated (option : String)
  | missingOption (option : String)
  | badValue (option value : String)
  deriving DecidableEq

def Misuse.message : Misuse → String
  | .noCommand => "a command is required: compute, validate, schema or version"
  | .unexpected word => "unexpected argument '" ++ word ++ "'"
  | .missingValue option => "a value is required for '--" ++ option ++ "'"
  | .superfluousValue option => "'--" ++ option ++ "' takes no value"
  | .repeated option => "'--" ++ option ++ "' cannot be used multiple times"
  | .missingOption option => "'--" ++ option ++ "' is required"
  | .badValue option value => "invalid value '" ++ value ++ "' for '--" ++ option ++ "'"

structure OptionForm where
  name : String
  letter : Option Char
  takesValue : Bool
  last : Bool

abbrev Given : Type := String × Option String

def verbose : OptionForm := ⟨"verbose", some 'v', false, false⟩

def helpForm : OptionForm := ⟨"help", some 'h', false, true⟩

def commonForms : List OptionForm := [verbose, ⟨"version", some 'V', false, true⟩, helpForm]

def computeForms : List OptionForm :=
  [⟨"input", some 'i', true, false⟩, ⟨"output", some 'o', true, false⟩,
    ⟨"flamegraph", some 'f', true, false⟩, ⟨"metric", some 'm', true, false⟩,
    ⟨"top", none, true, false⟩, ⟨"title", none, true, false⟩, ⟨"width", none, true, false⟩,
    ⟨"summary", none, false, false⟩, verbose, helpForm]

def validateForms : List OptionForm := [⟨"file", some 'f', true, false⟩, verbose, helpForm]

def schemaForms : List OptionForm := [⟨"show", none, false, false⟩, verbose, helpForm]

def versionForms : List OptionForm := [verbose, helpForm]

def commands : List String := ["compute", "validate", "schema", "version", "help"]

def isOption (word : String) : Bool := word.startsWith "-" && word != "-"

def readLetters (forms : List OptionForm) : List Char → Except Misuse (List Given × Bool)
  | [] => .ok ([], false)
  | c :: cs =>
    match forms.find? (·.letter == some c) with
    | none => .error (.unexpected (String.ofList ['-', c]))
    | some form =>
      if form.takesValue then
        match cs with
        | [] => .ok ([(form.name, none)], true)
        | '=' :: value => .ok ([(form.name, some (String.ofList value))], false)
        | value => .ok ([(form.name, some (String.ofList value))], false)
      else if form.last then .ok ([(form.name, none)], false)
      else do
        let (given, pending) ← readLetters forms cs
        .ok ((form.name, none) :: given, pending)

def readName (forms : List OptionForm) (word : List Char) : Except Misuse (List Given × Bool) :=
  let name := String.ofList (word.takeWhile (· != '='))
  let value? := match word.dropWhile (· != '=') with
    | [] => none
    | _ :: value => some (String.ofList value)
  match forms.find? (·.name == name) with
  | none => .error (.unexpected ("--" ++ name))
  | some form =>
    match form.takesValue, value? with
    | true, none => .ok ([(form.name, none)], true)
    | true, some value => .ok ([(form.name, some value)], false)
    | false, none => .ok ([(form.name, none)], false)
    | false, some _ => .error (.superfluousValue form.name)

def readOption (forms : List OptionForm) (word : String) : Except Misuse (List Given × Bool) :=
  match word.toList with
  | '-' :: '-' :: name => readName forms name
  | '-' :: letters => readLetters forms letters
  | _ => .error (.unexpected word)

def supply (value : String) : List Given → List Given
  | [] => []
  | [(name, _)] => [(name, some value)]
  | given :: rest => given :: supply value rest

def readOptions (forms : List OptionForm) : List String → Except Misuse (List Given)
  | [] => .ok []
  | "--" :: rest =>
    match rest with
    | [] => .ok []
    | word :: _ => .error (.unexpected word)
  | word :: rest =>
    if isOption word then do
      let (given, pending) ← readOption forms word
      if pending then
        match rest with
        | value :: rest =>
          if isOption value then .error (.missingValue word)
          else do
            let others ← readOptions forms rest
            .ok (supply value given ++ others)
        | [] => .error (.missingValue word)
      else if given.any fun g => forms.any fun form => form.last && form.name == g.1 then .ok given
      else do
        let others ← readOptions forms rest
        .ok (given ++ others)
    else .error (.unexpected word)

def checkRepeats : List Given → Except Misuse Unit
  | [] => .ok ()
  | (name, _) :: rest =>
    if rest.any (·.1 == name) then .error (.repeated name) else checkRepeats rest

def value? (given : List Given) (name : String) : Option String := (given.lookup name).join

def has (given : List Given) (name : String) : Bool := (given.lookup name).isSome

def path? (given : List Given) (name : String) : Except Misuse (Option String) :=
  match value? given name with
  | some "" => .error (.badValue name "")
  | path => .ok path

def required (name : String) : Option String → Except Misuse String
  | some value => .ok value
  | none => .error (.missingOption name)

def natural (given : List Given) (name : String) (default : Nat) : Except Misuse Nat :=
  match value? given name with
  | none => .ok default
  | some value => (Text.readNatural value.toList).mapError fun _ => .badValue name value

def metricId (given : List Given) (name : String) (default : MetricId) : Except Misuse MetricId :=
  match value? given name with
  | none => .ok default
  | some value =>
    match Text.readInteger value.toList with
    | .ok n =>
      if Int32.minValue.toInt ≤ n ∧ n ≤ Int32.maxValue.toInt then .ok (Int32.ofInt n)
      else .error (.badValue name value)
    | .error _ => .error (.badValue name value)

def computeOptions (given : List Given) : Except Misuse ComputeOptions := do
  let standard := ComputeOptions.standard ""
  let settings := Flamegraph.Settings.standard
  let input? ← path? given "input"
  let output ← path? given "output"
  let svg ← path? given "flamegraph"
  let metric ← metricId given "metric" standard.metric
  let top ← natural given "top" standard.top
  let title := (value? given "title").getD settings.title
  let width ← natural given "width" settings.width
  let input ← required "input" input?
  .ok { input, svg, metric, top
        output := output.getD standard.output
        drawing := svg.map fun _ => { settings with title, width }
        summary := has given "summary" }

def withOptions (forms : List OptionForm) (words : List String)
    (build : List Given → Except Misuse Request) : Except Misuse Request := do
  let given ← readOptions forms words
  checkRepeats given
  match has given "help", build given with
  | true, .ok _ | true, .error (.missingOption _) => .ok .help
  | _, request => request

def readHelp : List String → Except Misuse Request
  | [] => .ok .help
  | [word] => if word ∈ commands then .ok .help else .error (.unexpected word)
  | _ :: word :: _ => .error (.unexpected word)

def readCommand (name : String) (words : List String) : Except Misuse Request :=
  match name with
  | "compute" => withOptions computeForms words fun given => (computeOptions given).map .compute
  | "validate" => withOptions validateForms words fun given => do
    let path ← required "file" (← path? given "file")
    .ok (.validate path)
  | "schema" => withOptions schemaForms words fun given => .ok (.schema (has given "show"))
  | "version" => withOptions versionForms words fun _ => .ok .version
  | "help" => readHelp words
  | name => .error (.unexpected name)

def readWords : List Given → List String → Except Misuse Request
  | _, [] => .error .noCommand
  | given, word :: rest =>
    if isOption word then do
      let (more, _) ← readOption commonForms word
      let given := given ++ more
      checkRepeats given
      match given.find? fun g => g.1 == "version" || g.1 == "help" with
      | some ("version", _) => .ok .programVersion
      | some _ => .ok .help
      | none => readWords given rest
    else readCommand word rest

def Request.ofWords (words : List String) : Except Misuse Request := readWords [] words

end Tool

end GpuProfile
