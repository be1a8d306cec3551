import DefLang.Position
import DefLang.Text.Quoted

namespace DefLang

open Text (quote)

inductive Cause where
  | invalidToken (token : String)
  | readFailure (message : String)
  | invalidDefinition (token : String)
  | unsupportedDefinition (kind : String)
  | fieldExpected (token : String)
  | typeExpected (token : String)
  | unexpectedToken (token : String)
  | earlyEnd
  | nestingTooDeep (limit : Nat)
deriving DecidableEq, Repr

namespace Cause

def name : Cause → String
  | invalidToken _ => "InvalidToken"
  | readFailure _ => "Io"
  | invalidDefinition _ => "InvalidDefinition"
  | unsupportedDefinition _ => "UnsupportedDefinition"
  | fieldExpected _ => "FieldDeclarationExpected"
  | typeExpected _ => "TypeDeclarationExpected"
  | unexpectedToken _ => "UnexpectedToken"
  | earlyEnd => "UnexpectedEndOfInput"
  | nestingTooDeep _ => "NestingTooDeep"

def message : Cause → String
  | invalidToken token => s!"invalid token: {quote token}"
  | readFailure message => s!"failed to read source: {message}"
  | invalidDefinition token => s!"invalid definition at {quote token}"
  | unsupportedDefinition kind => s!"definition of type {quote kind} not supported yet"
  | fieldExpected token => s!"field declaration expected, found {quote token}"
  | typeExpected token => s!"type declaration expected, found {quote token}"
  | unexpectedToken token => s!"unexpected token: {quote token}"
  | earlyEnd => "unexpected end of input"
  | nestingTooDeep limit => s!"nesting deeper than {limit} levels"

/-- A hint for whoever wrote the source. An invalid token without text is the end of input. -/
def hint? : Cause → Option String
  | invalidToken "" => some "Unexpected end of input, a space or newline is required here"
  | invalidToken token => some s!"Character `{token}` cannot appear here"
  | readFailure _ => none
  | invalidDefinition token =>
    some s!"Unexpected `{token}`, expected `name:` followed by an optional type and a newline"
  | unsupportedDefinition _ => some "Only `defmodule` may be declared without a type"
  | fieldExpected token => some s!"Unexpected `{token}`, struct fields are written as `name: Type`"
  | typeExpected token => some s!"Unexpected `{token}`, expected a type name or `\x7b`"
  | unexpectedToken token => some s!"`{token}` cannot start a statement"
  | earlyEnd => some "Input ended inside a definition, is an `end` missing?"
  | nestingTooDeep limit => some s!"Statements and types nest at most {limit} levels deep"

def isLexical : Cause → Bool
  | invalidToken _ | readFailure _ => true
  | _ => false

/-- A token of a required kind is missing. Running out of tokens, or of nesting levels, is not such
a fault. -/
def isGrammatical : Cause → Bool
  | invalidDefinition _ | unsupportedDefinition _ | fieldExpected _ | typeExpected _
  | unexpectedToken _ => true
  | invalidToken _ | readFailure _ | earlyEnd | nestingTooDeep _ => false

end Cause

structure Diagnostic where
  cause : Cause
  position : Position
deriving DecidableEq, Repr

namespace Diagnostic

def describe (d : Diagnostic) : String := s!"{d.cause.message} in {d.position.describe}"

instance : ToString Diagnostic := ⟨describe⟩

end Diagnostic

end DefLang
