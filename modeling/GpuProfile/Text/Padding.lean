namespace GpuProfile.Text

def blanks (n : Nat) : String := String.ofList (List.replicate n ' ')

def padRight (width : Nat) (s : String) : String := s ++ blanks (width - s.length)

def padLeft (width : Nat) (s : String) : String := blanks (width - s.length) ++ s

def centred (width : Nat) (s : String) : String :=
  let missing := width - s.length
  blanks (missing / 2) ++ s ++ blanks (missing - missing / 2)

end GpuProfile.Text
