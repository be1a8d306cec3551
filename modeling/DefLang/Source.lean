import DefLang.Text.Utf8

namespace DefLang

inductive Read where
  | byte (b : Byte)
  | failure (message : String)
deriving DecidableEq, Repr

/-- What the reader answers, in order. A failed read takes nothing away: the bytes after it are
still delivered. -/
abbrev Source := List Read

namespace Source

def ofBytes (bytes : List Byte) : Source := bytes.map .byte

def ofText (text : String) : Source := ofBytes (Text.Utf8.encode text)

/-- The source whose read after its first `n` bytes fails once. Past the end nothing fails. -/
def interrupted (bytes : List Byte) (n : Nat) (message : String) : Source :=
  if n ≤ bytes.length then
    ofBytes (bytes.take n) ++ .failure message :: ofBytes (bytes.drop n)
  else
    ofBytes bytes

def bytes (source : Source) : List Byte :=
  source.filterMap fun
    | .byte b => some b
    | .failure _ => none

def failure? (source : Source) : Option String :=
  source.findSome? fun
    | .byte _ => none
    | .failure message => some message

theorem bytes_ofBytes (bytes : List Byte) : (ofBytes bytes).bytes = bytes := by
  induction bytes with
  | nil => rfl
  | cons b rest ih => exact congrArg (b :: ·) ih

end Source

end DefLang
