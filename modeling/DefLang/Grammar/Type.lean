import DefLang.Grammar.Descent
import DefLang.Tree.Basic

namespace DefLang

namespace Parse

section

variable {m : Type → Type} [Monad m] [MonadLiftT Parse m] [Repeats m] (type : m TypeExpr)

def field : m (Turn (Field TypeExpr)) := do
  let t ← requirePast Token.isLayout
  match t.kind with
  | .curlyClose => return .finish []
  | .declaration => return .again ⟨t.content, ← type⟩
  | _ => fail (.fieldExpected t.mention)

/-- Arrows associate to the right. The cursor moves on only if there is one. -/
def arrow (argument : TypeExpr) : m TypeExpr := do
  if (← peek).any (·.kind == .arrow) then
    let _ ← next
    return .function argument (← type)
  else
    return argument

/-- A type that begins at the next token, from the types within it. The cursor is left on its last
token. -/
def nextType : m TypeExpr := do
  let t ← requireNext
  match t.kind with
  | .identifier => arrow type (.named t.content none)
  | .curlyOpen => do
    let fields ← repeats (field type)
    arrow type (.struct fields)
  | _ => fail (.typeExpected t.mention)

end

/-- The next type, when so many levels of nesting are left. They are handed down, and no counter is
kept. -/
def typeExpr : Nat → Parse TypeExpr
  | 0 => tooDeep
  | room + 1 => nextType (typeExpr room)

end Parse

namespace Descent

def typeWithin : Nat → Descent TypeExpr
  | 0, p => p.run Parse.tooDeep
  | n + 1, p => p.nested (Parse.nextType (typeWithin n))

/-- The counter stops a descent one level before the bound does. -/
def typeExpr : Descent TypeExpr := typeWithin (maxNesting + 1)

end Descent

end DefLang
