import DefLang.Position
import DefLang.Token.Kind

namespace DefLang

/-- A piece of the source. Layout, most keywords and the end of input carry no value; a token that
spans lines is on the one where it starts. -/
structure Token where
  kind : Kind
  value : Option String
  file : String
  line : Nat
  start : Nat
  stop : Nat
deriving DecidableEq, Repr

namespace Token

def position (t : Token) : Position := ⟨t.file, t.line, t.start⟩

def mention (t : Token) : String := t.value.getD t.kind.name

def content (t : Token) : String := t.value.getD ""

def isComment (t : Token) : Bool := t.kind == .comment

def isLayout (t : Token) : Bool := t.kind.isLayout

def describe (t : Token) : String :=
  let value := t.value.getD "None"
  s!"{t.kind.name} value: \"{value}\" in {t.file}:{t.line} col:{t.start}-{t.stop}"

instance : ToString Token := ⟨describe⟩

theorem isLayout_of_isComment {t : Token} (h : t.isComment) : t.isLayout := by
  simp_all [isComment, isLayout, Kind.isLayout]

end Token

end DefLang
