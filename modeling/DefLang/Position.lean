namespace DefLang

/-- A place in a named source. Lines count from 1; columns count bytes, and the first byte of a
line is at column 1. -/
structure Position where
  file : String
  line : Nat
  column : Nat
deriving DecidableEq, Repr

namespace Position

def describe (p : Position) : String := s!"{p.file}:{p.line} col:{p.column}"

instance : ToString Position := ⟨describe⟩

end Position

end DefLang
