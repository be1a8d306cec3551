import DefLang.Lexer.Basic
import DefLang.Text.Utf8

namespace DefLang

inductive Lead where
  | newline
  | comment
  | atom
  | string
  | word
  | number
  | mark (kind : Kind)
  | operator
deriving DecidableEq, Repr

def Lead.ofByte? (b : Byte) : Option Lead :=
  if b == Byte.newline then some .newline
  else if b == Byte.hash then some .comment
  else if b == Byte.colon then some .atom
  else if b == Byte.quote then some .string
  else if b.isLetter then some .word
  else if b.isDigit then some .number
  else if b.isOperator then some .operator
  else (Kind.ofMark? b).map .mark

namespace Lexer

open Text.Utf8 (lossy)

def close (start : Lexer) (kind : Kind) (text : List Byte) : Scan Token := do
  return start.token kind (some (lossy text)) (← get).column

/-- A newline takes all layout after it along and ends where it starts. -/
def newline (start : Lexer) : Scan Token := do
  let _ ← takeWhile Byte.isLayout
  return start.token .newline none start.column

def comment (start : Lexer) (b : Byte) : Scan Token := do
  let text ← takeWhile (· != Byte.newline)
  start.close .comment (b :: text)

def atom (start : Lexer) (b : Byte) : Scan Token := do
  unless (← get).current.any Byte.isAlphanumeric do
    refuse
  let name ← takeWhile Byte.isWord
  requireFollower Followers.spacing
  start.close .atom (b :: name)

/-- A string ends before a quote, a newline or the end of input. Whichever it is counts as its
last column and is stepped over. -/
def string (start : Lexer) : Scan Token := do
  let text ← takeWhile fun b => b != Byte.quote && b != Byte.newline
  let token := start.token .string (some (lossy text)) ((← get).column + 1)
  readByte
  return token

/-- A keyword, a declaration or an identifier. The colon of a declaration belongs to it, but its
end column is where the colon stands. -/
def word (start : Lexer) (b : Byte) : Scan Token := do
  let text := b :: (← takeWhile Byte.isWord)
  match Keyword.ofWord? (lossy text) with
  | some keyword =>
    requireFollower keyword.followers
    return start.token keyword.kind keyword.value (← get).column
  | none =>
    let stop ← get
    if stop.current = some Byte.colon then
      readByte
      requireFollower Followers.spacing
      return start.token .declaration (some (lossy text ++ ":")) stop.column
    else
      start.close .identifier text

def number (start : Lexer) (b : Byte) : Scan Token := do
  let whole ← takeWhile Byte.isDigit
  if (← get).current = some Byte.dot then
    readByte
    let fraction ← takeWhile Byte.isDigit
    start.close .float (b :: whole ++ Byte.dot :: fraction)
  else
    start.close .integer (b :: whole)

def operator (start : Lexer) (b : Byte) : Scan Token := do
  let text ← takeWhile Byte.isOperator
  let kind := if lossy (b :: text) = "->" then Kind.arrow else Kind.operator
  start.close kind (b :: text)

def lexeme (start : Lexer) (b : Byte) : Lead → Scan Token
  | .newline => start.newline
  | .comment => start.comment b
  | .atom => start.atom b
  | .string => start.string
  | .word => start.word b
  | .number => start.number b
  | .operator => start.operator b
  | .mark kind => start.close kind [b]

/-- The token whose first byte is the current one. A byte that begins no token is refused and stays
the current one. -/
def tokenAt (start : Lexer) : Scan Token :=
  match start.current with
  | none => return start.token .eof none start.column
  | some b =>
    match Lead.ofByte? b with
    | none => refuse
    | some lead => do
      readByte
      start.lexeme b lead

def readToken : Scan Token := do
  let _ ← takeWhile Byte.isBlank
  tokenAt (← get)

end Lexer

end DefLang
