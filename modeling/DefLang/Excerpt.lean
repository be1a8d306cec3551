import DefLang.Diagnostic
import DefLang.Text.Line

namespace DefLang

def isIndentation (c : Char) : Bool := c == ' ' || c == '\t'

/-- A line of a source as it is shown under an error: without its indentation and its trailing
white space, and with a caret below. -/
structure Excerpt where
  line : Nat
  text : String
  /-- The place of the caret below the shown text, counted from 1. -/
  caret : Nat
deriving DecidableEq, Repr

structure CaretTooFar where
  caret : Nat
deriving DecidableEq, Repr

namespace Excerpt

def maxCaret : Nat := 65535

/-- The line of a position, if the source has it. Columns count bytes and the caret counts places,
so the two agree only as long as a line is ASCII. -/
def at? (source : String) (p : Position) : Option Excerpt :=
  (Text.line? source p.line).map fun line =>
    let shown := line.toList.dropWhile isIndentation
    let indentation := (line.toList.takeWhile isIndentation).length
    { line := p.line
      text := String.ofList (Text.trimEnd shown)
      caret := max (max p.column 1 - indentation) 1 }

def margin (e : Excerpt) : String :=
  String.ofList (List.replicate ((toString e.line).length + 1) ' ') ++ "|"

def caretRow (e : Excerpt) : String :=
  e.margin ++ " " ++ String.ofList (List.replicate (e.caret - 1) '-') ++ "^\n"

def draw (e : Excerpt) : Except CaretTooFar String :=
  if e.caret ≤ maxCaret then
    .ok (e.margin ++ "\n" ++ s!"{e.line} | {e.text}\n" ++ e.caretRow)
  else
    .error ⟨e.caret⟩

end Excerpt

namespace Diagnostic

def heading (d : Diagnostic) : String :=
  let name := d.cause.name
  let title :=
    match d.cause.hint? with
    | some tip => s!"Error: {name} ({tip})\n"
    | none => s!"Error: {name}\n"
  title ++ s!"-> {d.position.file}\n"

/-- The report of an error: its heading, then the excerpt, or the error in words where the source
has no such line. -/
def render (d : Diagnostic) (source : String) : Except CaretTooFar String :=
  match Excerpt.at? source d.position with
  | some excerpt => excerpt.draw.map (d.heading ++ ·)
  | none => .ok (d.heading ++ s!"{d.describe}\n")

example :
    (render ⟨.invalidToken "@", ⟨"sum", 2, 7⟩⟩ "def f: A\n  ret @\nend\n").toOption =
      some ("Error: InvalidToken (Character `@` cannot appear here)\n-> sum\n" ++
        "  |\n2 | ret @\n  | ----^\n") := by
  decide +kernel

end Diagnostic

end DefLang
