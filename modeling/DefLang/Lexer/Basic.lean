import DefLang.Diagnostic
import DefLang.Source
import DefLang.Token.Basic
import DefLang.Token.Keyword

namespace DefLang

/-- A source that is read one byte ahead. `current` is the byte at the position and `none` at the
end of input; `rest` is what the reader has yet to deliver. -/
structure Lexer where
  file : String
  current : Option Byte
  rest : Source
  line : Nat
  column : Nat
deriving DecidableEq, Repr

/-- Reading on from a lexer. A fault keeps the lexer as it was left, so reading can go on. -/
abbrev Scan := EStateM Diagnostic Lexer

namespace Lexer

def defaultName : String := "shell"

/-- A blank stands before the first byte. Skipping it is what reads that byte. -/
def ofSource (source : Source) (file : String) : Lexer := ⟨file, some Byte.space, source, 1, 0⟩

def position (l : Lexer) : Position := ⟨l.file, l.line, l.column⟩

def left (l : Lexer) : Nat := l.rest.length + l.current.toList.length

/-- A newline byte ends its line as soon as it is left. -/
def leaveLine (l : Lexer) : Lexer :=
  if l.current = some Byte.newline then { l with line := l.line + 1, column := 0 } else l

/-- Reads the next byte. When the read fails, the byte before it stays the current one. -/
def readByte : Scan Unit := fun l =>
  let l := l.leaveLine
  match l.rest with
  | .byte b :: rest => .ok () { l with current := some b, rest, column := l.column + 1 }
  | .failure message :: rest => .error ⟨.readFailure message, l.position⟩ { l with rest }
  | [] => .ok () { l with current := none, column := l.column + 1 }

theorem leaveLine_rest (l : Lexer) : l.leaveLine.rest = l.rest := by
  unfold leaveLine
  split <;> rfl

theorem leaveLine_current (l : Lexer) : l.leaveLine.current = l.current := by
  unfold leaveLine
  split <;> rfl

theorem left_of_readByte {l l' : Lexer} (h : readByte l = .ok () l') :
    l'.left + l.current.toList.length ≤ l.left := by
  simp only [readByte, leaveLine_rest] at h
  split at h
  · next hr =>
    cases h
    simp [left, hr]
  · cases h
  · next hr =>
    cases h
    simp [left, hr]

def takeOnto (accept : Byte → Bool) (taken : List Byte) (l : Lexer) :
    EStateM.Result Diagnostic Lexer (List Byte) :=
  match _ : l.current with
  | none => .ok taken.reverse l
  | some b =>
    if accept b then
      match _ : readByte l with
      | .ok _ l' => takeOnto accept (b :: taken) l'
      | .error d l' => .error d l'
    else
      .ok taken.reverse l
termination_by l.left
decreasing_by
  have := left_of_readByte ‹readByte l = _›
  simp only [‹l.current = _›, Option.toList_some, List.length_singleton] at this
  omega

def takeWhile (accept : Byte → Bool) : Scan (List Byte) := takeOnto accept []

def refuse {α : Type} : Scan α := fun l =>
  let token := (l.current.map (·.toChar.toString)).getD ""
  .error ⟨.invalidToken token, l.position⟩ l

def requireFollower (followers : Followers) : Scan Unit := do
  unless followers.contains (← get).current do
    refuse

def token (start : Lexer) (kind : Kind) (value : Option String) (stop : Nat) : Token :=
  ⟨kind, value, start.file, start.line, start.column, stop⟩

end Lexer

end DefLang
