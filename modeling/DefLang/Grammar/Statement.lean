import DefLang.Grammar.Type

namespace DefLang

namespace Kind

def beginsStatement : Kind → Bool
  | atom | integer | float | string | functionReturn | definition | definitionEnd => true
  | _ => false

def beginsType (kind : Kind) : Bool := kind == identifier || kind == curlyOpen

end Kind

/-- Layout is passed over between statements, and so are unknown tokens where they are skipped. -/
def Options.passes (options : Options) (t : Token) : Bool :=
  t.isLayout || (options.unknownTokens == .skip && !t.kind.beginsStatement)

namespace Parse

def headerEnd : Parse Unit := do
  let t ← requirePast Token.isComment
  unless t.kind = .newline do
    fail (.invalidDefinition t.mention)

section

variable {m : Type → Type} [Monad m] [MonadLiftT Parse m] (statement : m (Option Node))

def returned : m Node := do
  match ← statement with
  | some value => return .functionReturn value
  | none => fail .earlyEnd

def bodyStatement : m (Turn Node) := do
  match ← statement with
  | some node => return if node.closes then .finish [node] else .again node
  | none => fail .earlyEnd

variable [Repeats m]

def body : m (List Node) := repeats (bodyStatement statement)

variable (type : m TypeExpr)

/-- What follows the word that opens a definition. Anything with a signature is a function,
whatever the word; without one there are only modules. -/
def definition (kind : Option String) : m Node := do
  let declaration ← requireNext
  unless declaration.kind = .declaration do
    fail (.invalidDefinition declaration.mention)
  let name := declaration.content
  if (← peek).any (·.kind.beginsType) then
    let signature ← type
    headerEnd
    tell (.functionBody name)
    return .functionDefinition name signature (← body statement)
  else
    headerEnd
    if kind = some "module" then
      tell (.moduleBody name)
      return .moduleDefinition name (← body statement)
    else
      fail (.unsupportedDefinition (kind.getD "def"))

def statementAt (t : Token) : m Node :=
  match t.kind with
  | .atom => return .atom t.content
  | .integer => return .integer t.content
  | .float => return .float t.content
  | .string => return .string t.content
  | .definitionEnd => return .definitionEnd
  | .functionReturn => returned statement
  | .definition => definition statement type t.value
  | _ => fail (.unexpectedToken t.mention)

/-- The next statement, from the statements and the types within it. There is none if the input ends
before one begins. -/
def nextStatement : m (Option Node) := do
  match ← nextPast (← options).passes with
  | some t => some <$> statementAt statement type t
  | none => return none

end

theorem body_eq (statement : Parse (Option Node)) :
    body statement = repeated (bodyStatement statement) :=
  rfl

/-- The next statement, when so many levels of nesting are left. They are handed down, and no
counter is kept. -/
def statement : Nat → Parse (Option Node)
  | 0 => tooDeep
  | room + 1 => nextStatement (statement room) (typeExpr room)

end Parse

namespace Descent

def statementWithin : Nat → Descent (Option Node)
  | 0, p => p.run Parse.tooDeep
  | n + 1, p => p.nested (Parse.nextStatement (statementWithin n) typeExpr)

/-- The counter stops this one before the bound does, too. -/
def statement : Descent (Option Node) := statementWithin (maxNesting + 1)

end Descent

end DefLang
