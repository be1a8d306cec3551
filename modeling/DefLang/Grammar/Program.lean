import DefLang.Grammar.Statement

namespace DefLang

def Parse.programTurn {m : Type → Type} [Monad m] (statement : m (Option Node)) :
    m (Turn Node) := do
  match ← statement with
  | some node => return .again node
  | none => return .finish []

/-- A statement of a program, without a counter. -/
def Parse.programStatement : Parse (Turn Node) := programTurn (statement maxNesting)

namespace Input

/-- Parses a whole program. Faults of the grammar are always fatal. When the input ends inside a
definition, or nests too deep, the options decide whether the statements before are kept. -/
def program (input : Input) : Reply Node :=
  let (run, parser) := Descent.turns (Parse.programTurn Descent.statement) (Parser.ofInput input)
  let statements := run.items
  let parsed := Event.parsed statements.length input.file
  match run.last.result with
  | .ok _ => ⟨.ok (.root statements), parser, run.events ++ [parsed]⟩
  | .error d =>
    if d.cause.isGrammatical || input.options.truncation = .fail then
      ⟨.error d, parser, run.events⟩
    else
      ⟨.ok (.root statements), { parser with cutShort := true },
        run.events ++ [.stoppedEarly input.file d, parsed]⟩

end Input

end DefLang
