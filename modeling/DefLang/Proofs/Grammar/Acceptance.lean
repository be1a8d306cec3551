import DefLang.Proofs.Grammar.Counter
import DefLang.Proofs.Grammar.Statements

namespace DefLang

namespace Grammar

def turnFrom : Option Node → Turn Node
  | some node => .again node
  | none => .finish []

def programTurn (statement : Grammar (Option Node)) : Grammar (Turn Node) :=
  fun tokens turn more => ∃ s, statement tokens s more ∧ turn = turnFrom s

section Turn

variable {statement : Grammar (Option Node)} {tokens more : List Token}

theorem programTurn_again_iff {node : Node} :
    programTurn statement tokens (.again node) more ↔ statement tokens (some node) more := by
  constructor
  · intro ⟨s, hs, hturn⟩
    cases s with
    | none => cases hturn
    | some node =>
      cases hturn
      exact hs
  · intro hs
    exact ⟨some node, hs, rfl⟩

theorem programTurn_finish_iff {nodes : List Node} :
    programTurn statement tokens (.finish nodes) more ↔
      nodes = [] ∧ statement tokens none more := by
  constructor
  · intro ⟨s, hs, hturn⟩
    cases s with
    | some node => cases hturn
    | none =>
      cases hturn
      exact ⟨rfl, hs⟩
  · intro ⟨hn, hs⟩
    exact ⟨none, hs, by rw [hn]; rfl⟩

end Turn

theorem length_lt_of_programTurn {options : Options} {room : Nat} {tokens more : List Token}
    {node : Node} (h : programTurn (statement options room) tokens (.again node) more) :
    more.length < tokens.length :=
  length_lt_of_statement (programTurn_again_iff.1 h)

/-- The statements of a program, and after them nothing but what is passed over. -/
theorem turns_programTurn_iff {options : Options} {room : Nat} {tokens more : List Token}
    {nodes : List Node} (hr : 0 < room) :
    Parse.Turns (programTurn (statement options room)) tokens nodes more ↔
      (∀ node ∈ nodes, node.isWellFormed ∧ node.depth ≤ room) ∧ more = [] ∧
        ∃ rest, Spells options (Node.allMarks nodes) tokens rest ∧
          ∀ t ∈ rest, options.passes t := by
  constructor
  · intro h
    induction h with
    | @finish tokens _ _ last =>
      obtain ⟨rfl, _, passes, hm⟩ := programTurn_finish_iff.1 last
      exact ⟨by simp, hm, tokens, Spells.nil_iff.2 rfl, passes⟩
    | again first _ ih =>
      obtain ⟨formed, deep, spells⟩ := programTurn_again_iff.1 first
      obtain ⟨all, hm, rest, others, passes⟩ := ih
      exact ⟨List.forall_mem_cons.2 ⟨⟨formed, deep⟩, all⟩, hm, rest,
        Spells.append_iff.2 ⟨_, spells, others⟩, passes⟩
  · intro ⟨all, hm, rest, spells, passes⟩
    subst hm
    induction nodes generalizing tokens with
    | nil =>
      obtain rfl := Spells.nil_iff.1 spells
      exact .finish (programTurn_finish_iff.2 ⟨rfl, hr, passes, rfl⟩)
    | cons node nodes ih =>
      obtain ⟨⟨formed, deep⟩, all⟩ := List.forall_mem_cons.1 all
      obtain ⟨middle, first, others⟩ := Spells.append_iff.1 spells
      exact .again (programTurn_again_iff.2 ⟨formed, deep, first⟩) (ih all others)

end Grammar

namespace Parse

theorem programStatement_eq :
    programStatement = statement maxNesting >>= fun s => pure (Grammar.turnFrom s) := by
  unfold programStatement programTurn
  congr
  funext s
  cases s <;> rfl

theorem programStatement_recognizes (input : Input) :
    programStatement.Recognizes input
      (Grammar.programTurn (Grammar.statement input.options maxNesting)) := by
  rw [programStatement_eq]
  exact (statement_recognizes input maxNesting).bind_pure Grammar.turnFrom

theorem program_recognizes (input : Input) :
    (repeated programStatement).Recognizes input
      (Turns (Grammar.programTurn (Grammar.statement input.options maxNesting))) :=
  (programStatement_recognizes input).repeated Grammar.length_lt_of_programTurn

end Parse

namespace Input

/-- A program that is not cut short is all that its statements repeat. -/
theorem program_eq_ok_iff {input : Input} {nodes : List Node} :
    (input.program.result = .ok (.root nodes) ∧ input.program.parser.cutShort = false) ↔
      (Parse.repeated Parse.programStatement input 0).result = .ok nodes := by
  rw [program_eq, Parse.repeated]
  dsimp only
  cases (Repetition.run Parse.programStatement input 0).last.result with
  | ok turn => simp [Except.map]
  | error d =>
    dsimp only
    split <;> simp [Except.map]

/-- The parser accepts exactly the token lists that its trees are written as. -/
theorem program_accepts_iff (input : Input) (nodes : List Node) :
    (input.program.result = .ok (.root nodes) ∧ input.program.parser.cutShort = false) ↔
      (∀ node ∈ nodes, node.isWellFormed ∧ node.depth ≤ maxNesting) ∧
        ∃ front rest, input.tokens.toList = front ++ rest ∧
          Written input.options (Node.allMarks nodes) front ∧
          ∀ t ∈ rest, input.options.passes t := by
  have room : 0 < maxNesting := by decide
  have accepts (more : List Token) := Parse.program_recognizes input 0 nodes more
  have start : input.rest 0 = input.tokens.toList := rfl
  simp only [Grammar.turns_programTurn_iff room, start] at accepts
  rw [program_eq_ok_iff]
  constructor
  · intro hr
    obtain ⟨formed, _, rest, ⟨front, he, hw⟩, passes⟩ := (accepts _).1 ⟨hr, rfl⟩
    exact ⟨formed, front, rest, he, hw, passes⟩
  · intro ⟨formed, front, rest, he, hw, passes⟩
    exact ((accepts []).2 ⟨formed, rfl, rest, ⟨front, he, hw⟩, passes⟩).1

end Input

end DefLang
