import DefLang.Byte

namespace DefLang

inductive Kind where
  | eof
  | comment
  | atom
  | declaration
  | string
  | integer
  | float
  | operator
  | separator
  | accessor
  | functionReturn
  | arrow
  | definition
  | definitionEnd
  | newline
  | identifier
  | roundOpen
  | roundClose
  | squareOpen
  | squareClose
  | curlyOpen
  | curlyClose
deriving DecidableEq, Repr

namespace Kind

def all : List Kind :=
  [eof, comment, atom, declaration, string, integer, float, operator, separator, accessor,
    functionReturn, arrow, definition, definitionEnd, newline, identifier, roundOpen, roundClose,
    squareOpen, squareClose, curlyOpen, curlyClose]

def name : Kind → String
  | eof => "eof"
  | comment => "comment"
  | atom => "atom_literal"
  | declaration => "declaration_literal"
  | string => "string_literal"
  | integer => "integer_literal"
  | float => "float_literal"
  | operator => "operator"
  | separator => "separator"
  | accessor => "accessor"
  | functionReturn => "function_return"
  | arrow => "function_arrow"
  | definition => "definition"
  | definitionEnd => "definition_end"
  | newline => "newline"
  | identifier => "identifier"
  | roundOpen => "round_bracket_open"
  | roundClose => "round_bracket_close"
  | squareOpen => "square_bracket_open"
  | squareClose => "square_bracket_close"
  | curlyOpen => "curly_bracket_open"
  | curlyClose => "curly_bracket_close"

instance : ToString Kind := ⟨name⟩

/-- The name in capitalised words, as in `AtomLiteral`. The end of input is an abbreviation. -/
def title : Kind → String
  | eof => "EOF"
  | kind => String.join ((kind.name.splitOn "_").map String.capitalize)

def ofName? (name : String) : Option Kind := all.find? (·.name == name)

def isLayout (kind : Kind) : Bool := kind == newline || kind == comment

def ofMark? (b : Byte) : Option Kind :=
  if b == 40 then some roundOpen
  else if b == 41 then some roundClose
  else if b == 91 then some squareOpen
  else if b == 93 then some squareClose
  else if b == 123 then some curlyOpen
  else if b == 125 then some curlyClose
  else if b == 44 then some separator
  else if b == 46 then some accessor
  else none

theorem mem_all (kind : Kind) : kind ∈ all := by
  cases kind <;> decide

theorem ofName?_name (kind : Kind) : ofName? kind.name = some kind := by
  cases kind <;> rfl

end Kind

end DefLang
