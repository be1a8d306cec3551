import DefLang.Diagnostic
import DefLang.Token.Basic

namespace DefLang

/-- How much a record of the log matters, the most important first. -/
inductive Level where
  | warn
  | debug
  | trace
deriving DecidableEq, Repr

namespace Level

def name : Level → String
  | warn => "warn"
  | debug => "debug"
  | trace => "trace"

def ofName? (name : String) : Option Level := [warn, debug, trace].find? (·.name == name)

/-- Whether a log kept at the second level has the records of the first. -/
def isKeptAt : Level → Level → Bool
  | warn, _ => true
  | debug, level => level != warn
  | trace, level => level == trace

end Level

inductive Event where
  | stringClosedByNewline (file : String) (line : Nat)
  | scanned (token : Token)
  | tokenized (file : String) (count : Nat)
  /-- The cursor has moved to the token at an index, or past the last one. -/
  | advanced (index : Nat) (token : Option Token)
  /-- The token at an index begins no statement. -/
  | skipped (index : Nat) (token : Token)
  | functionBody (name : String)
  | moduleBody (name : String)
  | stoppedEarly (file : String) (diagnostic : Diagnostic)
  | parsed (count : Nat) (file : String)
  | noExcerpt (path : String) (reason : String)
deriving DecidableEq, Repr

namespace Event

def level : Event → Level
  | stoppedEarly _ _ | noExcerpt _ _ => .warn
  | tokenized _ _ | functionBody _ | moduleBody _ | parsed _ _ => .debug
  | stringClosedByNewline _ _ | scanned _ | advanced _ _ | skipped _ _ => .trace

def message : Event → String
  | stringClosedByNewline file line => s!"string literal at {file}:{line} closed by newline"
  | scanned token => token.describe
  | tokenized file count => s!"tokenized {file} into {count} tokens"
  | advanced index (some token) => s!"next index [{index}]: {token.describe}"
  | advanced index none => s!"next index [{index}]: past end of input"
  | skipped _ token => s!"skipping {token.kind.name} at {token.position.describe}"
  | functionBody name => s!"parsing body of function {name}"
  | moduleBody name => s!"parsing body of module {name}"
  | stoppedEarly file diagnostic => s!"parse of {file} stopped early: {diagnostic.describe}"
  | parsed count file => s!"parsed {count} top-level statements from {file}"
  | noExcerpt path reason => s!"could not read {path} for the error excerpt: {reason}"

def keptAt (level : Level) (events : List Event) : List Event :=
  events.filter (·.level.isKeptAt level)

end Event

end DefLang
