import DefLang.Grammar.Program

namespace DefLang

namespace Reply

def map {α β : Type} (f : α → β) (r : Reply α) : Reply β := ⟨r.result.map f, r.parser, r.events⟩

end Reply

namespace Parser

def within {α : Type} (call : Parser → Reply α) : Nat → Parser → Reply α
  | 0, p => call p
  | levels + 1, p => p.nested (within call levels)

end Parser

inductive Call where
  | advance
  | current
  | requireCurrent
  | passComments
  | passLayout
  | earlyEnd
  | options
  | statement
  | returned
  | definition (kind : Option String)
  | body
  | type
  | within (levels : Nat) (call : Call)

inductive Answer where
  | nothing
  | token (token : Option Token)
  | options (options : Options)
  | node (node : Option Node)
  | nodes (nodes : List Node)
  | type (type : TypeExpr)

def Parser.answer : Call → Parser → Reply Answer
  | .advance, p => (p.run Parse.next).map .token
  | .current, p => (p.run Parse.current).map .token
  | .requireCurrent, p => (p.run Parse.requireCurrent).map fun t => .token (some t)
  | .passComments, p => (p.run (Parse.moveOff Token.isComment)).map fun _ => .nothing
  | .passLayout, p => (p.run (Parse.moveOff Token.isLayout)).map fun _ => .nothing
  | .earlyEnd, p => p.run (Parse.fail .earlyEnd)
  | .options, p => (p.run Parse.options).map .options
  | .statement, p => (Descent.statement p).map .node
  | .returned, p => (Parse.returned Descent.statement p).map fun n => .node (some n)
  | .definition kind, p =>
    (Parse.definition Descent.statement Descent.typeExpr kind p).map fun n => .node (some n)
  | .body, p => (Parse.body Descent.statement p).map .nodes
  | .type, p => (Descent.typeExpr p).map .type
  | .within levels call, p => p.within (answer call) levels

end DefLang
