import DefLang.Proofs.Grammar.Acceptance
import DefLang.Proofs.Grammar.Faults
import DefLang.Proofs.Grammar.Locality

namespace DefLang

def Standing.afterTurn : Turn Node → Standing
  | .again _ => token
  | .finish _ => ended

theorem Congruence.turnFrom
    {R : ∀ {α : Type}, Standing → (α → Standing) → Parse α → Parse α → Prop} (h : Congruence R)
    {s : Standing} {p q : Parse (Option Node)} (hp : R s .afterStatement p q) :
    R s .afterTurn (p >>= fun node => Pure.pure (Grammar.turnFrom node))
      (q >>= fun node => Pure.pure (Grammar.turnFrom node)) := by
  apply h.bind hp
  intro node
  cases node with
  | some node => exact h.pure (Turn.again node) .afterTurn
  | none => exact h.pure (Turn.finish []) .afterTurn

namespace Parse

theorem programStatement_advances : programStatement.Advances :=
  Recognizes.advances programStatement_recognizes Grammar.length_lt_of_programTurn

theorem programStatement_leads : programStatement.Leads .anywhere .afterTurn := by
  rw [programStatement_eq]
  exact Leads.congruence.turnFrom (q := statement maxNesting) (statement_leads maxNesting)

theorem programStatement_isLocal : programStatement.IsLocal .anywhere .afterTurn := by
  rw [programStatement_eq]
  exact IsLocal.congruence.turnFrom (q := statement maxNesting) (statement_isLocal maxNesting)

/-- Once the first token of a statement is found, the parser has moved. -/
theorem programStatement_eq_opener :
    programStatement = opener >>= fun t =>
      statementFrom (maxNesting - 1) t >>= fun s => pure (Grammar.turnFrom s) := by
  rw [programStatement_eq, ← bind_assoc, ← statement_succ]
  rfl

theorem programStatement_of_pass (input : Input) {cursor : Nat} {t : Token}
    (ht : input.tokens[cursor]? = some t) (hp : input.options.passes t) :
    programStatement input cursor =
      (programStatement input (cursor + 1)).after (input.passage cursor) := by
  rw [programStatement_eq_opener]
  exact opened_of_pass input ht hp

/-- A program goes on after a statement, which takes the tokens that spell it. -/
theorem statement_of_again {input : Input} {cursor : Nat} {node : Node}
    (hr : (programStatement input cursor).result = .ok (.again node)) :
    Grammar.statement input.options maxNesting (input.rest cursor) (some node)
      (input.rest (programStatement input cursor).cursor) :=
  Grammar.programTurn_again_iff.1 ((programStatement_recognizes input cursor _ _).1 ⟨hr, rfl⟩)

theorem cursor_le_of_again {input : Input} {cursor : Nat} {node : Node}
    (hr : (programStatement input cursor).result = .ok (.again node)) :
    (programStatement input cursor).cursor ≤ input.tokens.size :=
  (programStatement_leads input cursor trivial).cursor_le hr Standing.token_le_peeking

/-- A program ends where only tokens are left that are passed over. -/
theorem passes_of_finish {input : Input} {cursor : Nat} {nodes : List Node}
    (hr : (programStatement input cursor).result = .ok (.finish nodes)) :
    nodes = [] ∧ ∀ t ∈ input.rest cursor, input.options.passes t := by
  have last := (programStatement_recognizes input cursor _ _).1 ⟨hr, rfl⟩
  obtain ⟨rfl, _, passes, _⟩ := Grammar.programTurn_finish_iff.1 last
  exact ⟨rfl, passes⟩

theorem programStatement_shifted {input other : Input} {shift n cursor : Nat}
    (h : input.Agrees other shift n) (hn : (programStatement input cursor).extent .afterTurn ≤ n) :
    (programStatement input cursor).Shifted shift (programStatement other (shift + cursor)) := by
  rw [programStatement_eq_opener] at hn ⊢
  apply bind_shifted h (opener_shifted h) (Nat.succ_pos _) _ hn
  intro t
  exact IsLocal.congruence.turnFrom (q := statementFrom (maxNesting - 1) t)
    (statementFrom_isLocal _ t)

end Parse

def Options.IsFatal (options : Options) (d : Diagnostic) : Prop :=
  d.cause.isGrammatical ∨ options.truncation = .fail

namespace Input

variable {input : Input}

def statements (input : Input) : List Node := (Repetition.run Parse.programStatement input 0).items

def stop (input : Input) : Outcome (Turn Node) :=
  (Repetition.run Parse.programStatement input 0).last

theorem program_cursor (input : Input) : input.program.parser.cursor = input.stop.cursor := by
  rw [program_eq, stop]
  dsimp only
  split
  · rfl
  · split <;> rfl

theorem program_input (input : Input) : input.program.parser.input = input := by
  rw [program_eq]
  dsimp only
  split
  · rfl
  · split <;> rfl

theorem program_position (input : Input) :
    input.program.parser.position = input.position input.stop.cursor := by
  rw [Parser.position, program_input, program_cursor]

theorem program_isPastEnd (input : Input) :
    input.program.parser.isPastEnd = input.isPastEnd input.stop.cursor := by
  rw [Parser.isPastEnd, program_input, program_cursor]

/-- All that may come of a program. -/
theorem program_cases (input : Input) :
    (∃ turn, input.stop.result = .ok turn ∧
      input.program.result = .ok (.root input.statements) ∧
      input.program.parser.cutShort = false) ∨
    ∃ d, input.stop.result = .error d ∧
      (input.options.IsFatal d ∧ input.program.result = .error d ∧
        input.program.parser.cutShort = false ∨
      ¬input.options.IsFatal d ∧ input.program.result = .ok (.root input.statements) ∧
        input.program.parser.cutShort = true) := by
  rw [program_eq, stop, statements]
  dsimp only
  cases (Repetition.run Parse.programStatement input 0).last.result with
  | ok turn => exact .inl ⟨turn, rfl, rfl, rfl⟩
  | error d =>
    refine .inr ⟨d, rfl, ?_⟩
    have fatal : (d.cause.isGrammatical || decide (input.options.truncation = .fail)) = true ↔
        input.options.IsFatal d := by simp [Options.IsFatal]
    dsimp only
    by_cases hf : input.options.IsFatal d
    · rw [if_pos (fatal.2 hf)]
      exact .inl ⟨hf, rfl, rfl⟩
    · rw [if_neg (mt fatal.1 hf)]
      exact .inr ⟨hf, rfl, rfl⟩

theorem program_error_iff {d : Diagnostic} :
    input.program.result = .error d ↔ input.stop.result = .error d ∧ input.options.IsFatal d := by
  obtain ⟨turn, hs, hr, _⟩ | ⟨e, hs, ⟨hf, hr, _⟩ | ⟨hf, hr, _⟩⟩ := input.program_cases
  all_goals rw [hs, hr]
  all_goals grind

theorem program_ok_iff {ast : Node} :
    input.program.result = .ok ast ↔
      ast = .root input.statements ∧
        ∀ d, input.stop.result = .error d → ¬input.options.IsFatal d := by
  obtain ⟨turn, hs, hr, _⟩ | ⟨e, hs, ⟨hf, hr, _⟩ | ⟨hf, hr, _⟩⟩ := input.program_cases
  all_goals rw [hs, hr]
  all_goals grind

theorem program_cutShort_iff :
    input.program.parser.cutShort ↔
      ∃ d, input.stop.result = .error d ∧ ¬input.options.IsFatal d := by
  obtain ⟨turn, hs, _, hc⟩ | ⟨e, hs, ⟨hf, _, hc⟩ | ⟨hf, _, hc⟩⟩ := input.program_cases
  all_goals rw [hs, hc]
  all_goals grind

section Congr

variable {other : Input} (stop : other.stop.result = input.stop.result)
  (truncation : other.options.truncation = input.options.truncation)

include stop truncation

theorem cutShort_congr : other.program.parser.cutShort = input.program.parser.cutShort := by
  rw [Bool.eq_iff_iff, program_cutShort_iff, program_cutShort_iff]
  simp only [stop, Options.IsFatal, truncation]

theorem error_congr (d : Diagnostic) :
    other.program.result = .error d ↔ input.program.result = .error d := by
  rw [program_error_iff, program_error_iff]
  simp only [stop, Options.IsFatal, truncation]

/-- Of programs that end alike both are accepted or neither, each with its own statements. -/
theorem ok_congr {ast ast' : Node}
    (statements : ast = .root other.statements ↔ ast' = .root input.statements) :
    other.program.result = .ok ast ↔ input.program.result = .ok ast' := by
  rw [program_ok_iff, program_ok_iff]
  simp only [stop, Options.IsFatal, truncation, statements]

theorem result_congr (statements : other.statements = input.statements) :
    other.program.result = input.program.result := by
  cases hr : input.program.result with
  | ok ast => exact (ok_congr stop truncation (by rw [statements])).2 hr
  | error d => exact (error_congr stop truncation d).2 hr

end Congr

/-- A program ends as its last statement does. -/
theorem exists_stop (input : Input) :
    ∃ cursor, input.stop = Parse.programStatement input cursor := by
  unfold stop
  generalize 0 = start
  induction start using Parse.programStatement_advances.induction input with
  | again start node hr ih => rwa [Repetition.last_again Parse.programStatement_advances hr]
  | stop start hs =>
    rw [Repetition.run_stop hs]
    exact ⟨start, rfl⟩

theorem stop_lands (input : Input) : input.stop.Lands input .afterTurn := by
  obtain ⟨cursor, hc⟩ := input.exists_stop
  rw [hc]
  exact Parse.programStatement_leads input cursor trivial

/-- Statements are read in the same way from tokens that agree as far as the last one depends on
them. -/
theorem run_shifted {other : Input} {shift n : Nat} (h : input.Agrees other shift n)
    (hn : input.stop.extent .afterTurn ≤ n) :
    (Repetition.run Parse.programStatement other shift).items = input.statements ∧
      input.stop.Shifted shift (Repetition.run Parse.programStatement other shift).last :=
  Repetition.run_shifted Parse.programStatement_advances
    (Parse.programStatement_isLocal.extent input) (fun _ => Parse.programStatement_shifted h) 0 hn

theorem items_of_stop {cursor : Nat}
    (hs : ∀ node, (Parse.programStatement input cursor).result ≠ .ok (.again node)) :
    (Repetition.run Parse.programStatement input cursor).items = [] := by
  rw [Repetition.items_stop hs, Outcome.items]
  cases hr : (Parse.programStatement input cursor).result with
  | error d => rfl
  | ok turn =>
    cases turn with
    | again node => exact absurd hr (hs node)
    | finish nodes => exact (Parse.passes_of_finish hr).1

/-- The statements stand in the first tokens, whatever comes after them. -/
theorem exists_spells_statements (input : Input) :
    (∀ node ∈ input.statements, node.isWellFormed ∧ node.depth ≤ maxNesting) ∧
      ∃ rest, Spells input.options (Node.allMarks input.statements) input.tokens.toList rest := by
  suffices h : ∀ cursor,
      (∀ node ∈ (Repetition.run Parse.programStatement input cursor).items,
        node.isWellFormed ∧ node.depth ≤ maxNesting) ∧
      ∃ rest, Spells input.options
        (Node.allMarks (Repetition.run Parse.programStatement input cursor).items)
        (input.rest cursor) rest from h 0
  intro cursor
  induction cursor using Parse.programStatement_advances.induction input with
  | again cursor node hr ih =>
    obtain ⟨formed, deep, spells⟩ := Parse.statement_of_again hr
    obtain ⟨all, rest, others⟩ := ih
    rw [Repetition.items_again Parse.programStatement_advances hr]
    exact ⟨List.forall_mem_cons.2 ⟨⟨formed, deep⟩, all⟩, rest,
      Spells.append_iff.2 ⟨_, spells, others⟩⟩
  | stop cursor hs =>
    rw [items_of_stop hs]
    exact ⟨nofun, input.rest cursor, Spells.nil_iff.2 rfl⟩

/-- Tokens that spell statements, with only what is passed over left, are accepted. -/
theorem program_of_spells {nodes : List Node} {rest : List Token}
    (formed : ∀ node ∈ nodes, node.isWellFormed ∧ node.depth ≤ maxNesting)
    (spells : Spells input.options (Node.allMarks nodes) input.tokens.toList rest)
    (passes : ∀ t ∈ rest, input.options.passes t) :
    input.program.result = .ok (.root nodes) ∧ input.program.parser.cutShort = false := by
  have turns := (Grammar.turns_programTurn_iff (Nat.succ_pos _)).2
    ⟨formed, rfl, rest, spells, passes⟩
  exact program_eq_ok_iff.2 ((Parse.program_recognizes input 0 nodes []).2 turns).1

end Input

end DefLang
