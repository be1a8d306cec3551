import DefLang.Event
import DefLang.Lexer.Step

namespace DefLang

/-- A file: where it is, and what it holds or why it cannot be opened. A file that opens may still
fail to be read. -/
structure Document where
  path : String
  content : Except String Source

namespace Document

/-- The last component of a path; a trailing slash or dot does not count as one. A path that has
none, or ends by going up, is its own name. -/
def nameOf (path : String) : String :=
  match ((path.toList.splitOn '/').filter fun part => part != [] && part != ['.']).getLast? with
  | some name => if name = ['.', '.'] then path else String.ofList name
  | none => path

def name (document : Document) : String := nameOf document.path

def lexer (document : Document) : Except Diagnostic Lexer :=
  match document.content with
  | .ok source => .ok (Lexer.ofSource source document.name)
  | .error reason => .error ⟨.readFailure reason, ⟨document.name, 0, 0⟩⟩

def tokens (document : Document) : Except Diagnostic (List Token) :=
  document.lexer.bind Lexer.tokens

def tokenEvents (document : Document) : List Event :=
  match document.lexer with
  | .ok lexer => lexer.events
  | .error _ => []

def notUnicode : String := "stream did not contain valid UTF-8"

def text (document : Document) : Except String String := do
  let source ← document.content
  match source.failure? with
  | some message => .error message
  | none =>
    match Text.Utf8.strict? source.bytes with
    | some text => .ok text
    | none => .error notUnicode

/-- The text that excerpts are taken from. Without one, errors are still reported. -/
def excerptText (document : Document) : String :=
  match document.text with
  | .ok text => text
  | .error _ => ""

def excerptEvents (document : Document) : List Event :=
  match document.text with
  | .ok _ => []
  | .error reason => [.noExcerpt document.path reason]

end Document

end DefLang
