namespace DefLang

def plainName (name : String) : String :=
  if name.toList.getLast? = some ':' then String.ofList name.toList.dropLast else name

/-- A named part of a struct. The name keeps its colon. -/
structure Field (τ : Type) where
  name : String
  type : τ
deriving DecidableEq

/-- A type as it is written. The parser resolves no names. -/
inductive TypeExpr where
  | named (name : String) (resolved : Option TypeExpr)
  | function (argument result : TypeExpr)
  | struct (fields : List (Field TypeExpr))
deriving Inhabited

/-- A statement or a whole program. The names of definitions keep their colon. -/
inductive Node where
  | root (statements : List Node)
  | atom (name : String)
  | integer (text : String)
  | float (text : String)
  | string (text : String)
  | definitionEnd
  | functionReturn (value : Node)
  | moduleDefinition (name : String) (body : List Node)
  | functionDefinition (name : String) (signature : TypeExpr) (body : List Node)
deriving Inhabited

namespace Field

def plainName {τ : Type} (field : Field τ) : String := DefLang.plainName field.name

end Field

namespace TypeExpr

def title : TypeExpr → String
  | named _ _ => "TypeIdentifier"
  | function _ _ => "FunctionType"
  | struct _ => "StructType"

def fields? : TypeExpr → Option (List (Field TypeExpr))
  | struct fields => some fields
  | _ => none

end TypeExpr

namespace Node

def title : Node → String
  | root _ => "Root"
  | atom _ => "AtomLiteral"
  | integer _ => "IntegerLiteral"
  | float _ => "FloatLiteral"
  | string _ => "StringLiteral"
  | definitionEnd => "DefinitionEnd"
  | functionReturn _ => "FunctionReturn"
  | moduleDefinition _ _ => "ModuleDefinition"
  | functionDefinition _ _ _ => "FunctionDefinition"

def isEnd : Node → Bool
  | definitionEnd => true
  | _ => false

def body? : Node → Option (List Node)
  | root statements => some statements
  | moduleDefinition _ body | functionDefinition _ _ body => some body
  | _ => none

def name? : Node → Option String
  | moduleDefinition name _ | functionDefinition name _ _ => some name
  | _ => none

def plainName? (node : Node) : Option String := node.name?.map plainName

/-- A statement closes the body it stands in when its last token is an `end` that belongs to no
definition within it. -/
def closes : Node → Bool
  | definitionEnd => true
  | functionReturn value => value.closes
  | _ => false

end Node

end DefLang
