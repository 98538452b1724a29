namespace GpuProfile

namespace Path

def parts (path : String) : List String := (path.splitToList (· == '/'))

def isSilent (part : String) : Bool := part.isEmpty || part == "."

def dropSilent (parts : List String) : List String :=
  parts.take 1 ++ ((parts.drop 1).reverse.dropWhile isSilent).reverse

def parent? (path : String) : Option String :=
  match dropSilent (parts path) with
  | [] | [""] => none
  | [_] => some ""
  | named =>
    match dropSilent named.dropLast with
    | [""] => some "/"
    | parts => some ("/".intercalate parts)

end Path

end GpuProfile
