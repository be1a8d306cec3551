import DefLang.Tree.Outline

namespace DefLang

inductive UnknownTokens where
  | skip
  | reject
deriving DecidableEq, Repr

/-- What becomes of a program that ends inside a definition, or nests too deep. Recovering keeps
the statements before. -/
inductive Truncation where
  | recover
  | fail
deriving DecidableEq, Repr

structure Options where
  unknownTokens : UnknownTokens
  truncation : Truncation
deriving DecidableEq, Repr

namespace Options

def lenient : Options := ⟨.skip, .recover⟩

def strict : Options := ⟨.reject, .fail⟩

def outline (options : Options) : Outline :=
  let unknownTokens :=
    match options.unknownTokens with
    | .skip => "Skip"
    | .reject => "Reject"
  let truncation :=
    match options.truncation with
    | .recover => "Recover"
    | .fail => "Fail"
  .record "ParseOptions" [("unknown_tokens", .word unknownTokens), ("truncation", .word truncation)]

end Options

end DefLang
