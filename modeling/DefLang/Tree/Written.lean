import DefLang.Token.Basic
import DefLang.Tree.Basic

namespace DefLang

/-- What may stand before a token of a tree without being part of it. -/
inductive Gap where
  | nothing
  | comments
  | layout
  | statements
deriving DecidableEq, Repr

/-- A token that a tree is written with: its kind, and its content where that tells trees apart. -/
structure Mark where
  gap : Gap
  kind : Kind
  content? : Option String
deriving DecidableEq, Repr

namespace Mark

def fits (m : Mark) (t : Token) : Bool := t.kind == m.kind && m.content?.all (· == t.content)

/-- The word of the source that gives such a token. -/
def word (m : Mark) : String :=
  let content := m.content?.getD ""
  match m.kind with
  | .string => "\"" ++ content ++ "\""
  | .functionReturn => "ret"
  | .definitionEnd => "end"
  | .definition => "def" ++ content
  | .arrow => "->"
  | .curlyOpen => "\x7b"
  | .curlyClose => "\x7d"
  | _ => content

/-- A header ends with its line, and a space follows every other token. -/
def source (m : Mark) : String := if m.kind = .newline then "\n" else m.word ++ " "

end Mark

namespace TypeExpr

mutual

def marks : TypeExpr → List Mark
  | named name _ => [⟨.nothing, .identifier, some name⟩]
  | function argument result => argument.marks ++ ⟨.nothing, .arrow, none⟩ :: result.marks
  | struct fields =>
    ⟨.nothing, .curlyOpen, none⟩ :: fieldMarks fields ++ [⟨.layout, .curlyClose, none⟩]

def fieldMarks : List (Field TypeExpr) → List Mark
  | [] => []
  | ⟨name, type⟩ :: fields =>
    ⟨.layout, .declaration, some name⟩ :: type.marks ++ fieldMarks fields

end

end TypeExpr

namespace Node

mutual

def marks : Node → List Mark
  | root statements => allMarks statements
  | atom name => [⟨.statements, .atom, some name⟩]
  | integer text => [⟨.statements, .integer, some text⟩]
  | float text => [⟨.statements, .float, some text⟩]
  | string text => [⟨.statements, .string, some text⟩]
  | definitionEnd => [⟨.statements, .definitionEnd, none⟩]
  | functionReturn value => ⟨.statements, .functionReturn, none⟩ :: value.marks
  | moduleDefinition name body =>
    ⟨.statements, .definition, some "module"⟩ :: ⟨.nothing, .declaration, some name⟩ ::
      ⟨.comments, .newline, none⟩ :: allMarks body
  | functionDefinition name signature body =>
    ⟨.statements, .definition, none⟩ :: ⟨.nothing, .declaration, some name⟩ ::
      signature.marks ++ ⟨.comments, .newline, none⟩ :: allMarks body

def allMarks : List Node → List Mark
  | [] => []
  | node :: nodes => node.marks ++ allMarks nodes

end

def source (node : Node) : String := String.join (node.marks.map Mark.source)

theorem allMarks_append (nodes more : List Node) :
    allMarks (nodes ++ more) = allMarks nodes ++ allMarks more := by
  induction nodes with
  | nil => simp [allMarks]
  | cons node nodes ih => simp [allMarks, ih]

theorem marks_ne_nil {node : Node} (h : ∀ statements, node ≠ root statements) :
    node.marks ≠ [] := by
  cases node with
  | root statements => exact absurd rfl (h statements)
  | _ => simp [marks]

end Node

end DefLang
