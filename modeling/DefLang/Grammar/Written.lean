import DefLang.Grammar.Statement
import DefLang.Tree.Written

namespace DefLang

def Gap.allows (gap : Gap) (options : Options) (t : Token) : Bool :=
  match gap with
  | .nothing => false
  | .comments => t.isComment
  | .layout => t.isLayout
  | .statements => options.passes t

/-- The token lists that a tree can be read from: its own tokens in order, and in the gaps between
them what the options let pass. -/
inductive Written (options : Options) : List Mark → List Token → Prop where
  | done : Written options [] []
  | gap {m : Mark} {marks : List Mark} {t : Token} {tokens : List Token}
      (allowed : m.gap.allows options t) (rest : Written options (m :: marks) tokens) :
      Written options (m :: marks) (t :: tokens)
  | token {m : Mark} {marks : List Mark} {t : Token} {tokens : List Token}
      (fits : m.fits t) (rest : Written options marks tokens) :
      Written options (m :: marks) (t :: tokens)

namespace Written

theorem append {options : Options} {marks more : List Mark} {tokens others : List Token}
    (h : Written options marks tokens) (h' : Written options more others) :
    Written options (marks ++ more) (tokens ++ others) := by
  induction h with
  | done => exact h'
  | gap allowed _ ih => exact .gap allowed ih
  | token fits _ ih => exact .token fits ih

end Written

end DefLang
