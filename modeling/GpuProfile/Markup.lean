namespace GpuProfile

inductive Markup where
  | text (content : String)
  | element (name : String) (attributes : List (String × String)) (children : List Markup)

namespace Markup

def escape (c : Char) : List Char :=
  match c with
  | '&' => ['&', 'a', 'm', 'p', ';']
  | '<' => ['&', 'l', 't', ';']
  | '>' => ['&', 'g', 't', ';']
  | '"' => ['&', 'q', 'u', 'o', 't', ';']
  | c => [c]

def escapeAll (s : String) : List Char := s.toList.flatMap escape

def writeAttribute : String × String → List Char
  | (name, value) => ' ' :: name.toList ++ '=' :: '"' :: escapeAll value ++ ['"']

mutual

def write : Markup → List Char
  | text content => escapeAll content
  | element name attributes children =>
    '<' :: name.toList ++ attributes.flatMap writeAttribute ++
      '>' :: writeAll children ++ '<' :: '/' :: name.toList ++ ['>']

def writeAll : List Markup → List Char
  | [] => []
  | m :: rest => write m ++ writeAll rest

end

def render (m : Markup) : String := String.ofList m.write

end Markup

end GpuProfile
