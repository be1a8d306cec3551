import DefLang.Proofs.Grammar.Programs
import DefLang.Proofs.Grammar.Session

namespace DefLang

theorem Grammar.bounds_of_definition {options : Options} {room : Nat} {tokens more : List Token}
    {node : Node} {kind : Option String}
    (h : definition (statement options room) (type options room) kind tokens node more) :
    node.isWellFormed ∧ node.depth ≤ room + 1 := by
  obtain ⟨t, middle, -, -, h⟩ := h
  rcases definitionOf_iff.1 h with h | h
  · obtain ⟨signature, nodes, rfl, plain, deep, formed, deeps, -⟩ := functionOf_iff.1 h
    refine ⟨by simp [Node.isWellFormed, plain, formed], ?_⟩
    rw [Node.depth]
    omega
  · obtain ⟨nodes, rfl, -, formed, deeps, -⟩ := moduleOf_iff.1 h
    refine ⟨formed, ?_⟩
    rw [Node.depth]
    omega

namespace Parse

variable {input : Input} {cursor room : Nat}

/-- What a parser gives is what the grammar has. -/
theorem Recognizes.of_result {α : Type} {p : Parse α} {g : Grammar α} (h : p.Recognizes input g)
    {a : α} (hr : (p input cursor).result = .ok a) :
    g (input.rest cursor) a (input.rest (p input cursor).cursor) :=
  (h cursor a _).1 ⟨hr, rfl⟩

theorem statement_bounds {node : Node}
    (h : (statement room input cursor).result = .ok (some node)) :
    node.isWellFormed ∧ node.depth ≤ room := by
  obtain ⟨formed, deep, -⟩ := (statement_recognizes input room).of_result h
  exact ⟨formed, deep⟩

/-- A return that is asked for by itself opens no level of its own. -/
theorem returned_bounds {node : Node}
    (h : (returned (statement room) input cursor).result = .ok node) :
    node.isWellFormed ∧ node.depth ≤ room + 1 := by
  obtain ⟨value, ⟨formed, deep, -⟩, rfl⟩ := (statement_recognizes input room).returned.of_result h
  refine ⟨formed, ?_⟩
  rw [Node.depth]
  omega

theorem body_recognizes (input : Input) (room : Nat) :
    (body (statement room)).Recognizes input
      (Turns (Grammar.bodyTurn (Grammar.statement input.options room))) :=
  (statement_recognizes input room).body Grammar.length_lt_of_statement

/-- Nor does a definition. -/
theorem definition_bounds {kind : Option String} {node : Node}
    (h : (definition (statement room) (typeExpr room) kind input cursor).result = .ok node) :
    node.isWellFormed ∧ node.depth ≤ room + 1 :=
  Grammar.bounds_of_definition
    (((body_recognizes input room).definition (Recognizes.typeExpr room) kind).of_result h)

theorem body_bounds {nodes : List Node}
    (h : (body (statement room) input cursor).result = .ok nodes) :
    Node.isBody nodes ∧ ∀ node ∈ nodes, node.depth ≤ room := by
  obtain ⟨formed, deep, -⟩ :=
    Grammar.turns_bodyTurn_iff.1 ((body_recognizes input room).of_result h)
  exact ⟨formed, Node.depths_le_iff.1 deep⟩

theorem typeExpr_bounds {e : TypeExpr} (h : (typeExpr room input cursor).result = .ok e) :
    e.isPlain ∧ e.depth ≤ room := by
  obtain ⟨plain, deep, -⟩ := (Recognizes.typeExpr room).of_result h
  exact ⟨plain, deep⟩

end Parse

/-- Statements that are kept are well formed and not too deep, those of a program that is cut short
among them. -/
theorem Input.program_bounds {input : Input} {ast : Node}
    (h : input.program.result = .ok ast) :
    ∃ nodes, ast = .root nodes ∧ ∀ node ∈ nodes, node.isWellFormed ∧ node.depth ≤ maxNesting :=
  ⟨input.statements, (program_ok_iff.1 h).1, input.exists_spells_statements.1⟩

namespace Parser

variable {α : Type} {p : Parser} {levels : Nat}

/-- What a call inside some levels gives was parsed with the room that is left there. -/
theorem exists_of_within (parse : Nat → Parse α) {call : Call} {f : α → Answer} {answer : Answer}
    (runs : ∀ q : Parser, q.answer call = (q.run (parse q.room)).map f)
    (h : (p.answer (.within levels call)).result = .ok answer) :
    ∃ a, answer = f a ∧
      (parse (maxNesting - (p.depth + levels)) p.input p.cursor).result = .ok a := by
  rw [Parser.answer, within_of_ok h, runs] at h
  have given : (parse (maxNesting - (p.depth + levels)) p.input p.cursor).result.map f =
      .ok answer := h
  cases hr : (parse (maxNesting - (p.depth + levels)) p.input p.cursor).result with
  | error d =>
    rw [hr] at given
    cases given
  | ok a =>
    rw [hr] at given
    cases given
    exact ⟨a, rfl, rfl⟩

/-- Every tree that is handed out is well formed, and no deeper than there is room for where it was
asked for. -/
theorem trees_bounded (p : Parser) (levels : Nat) :
    let room := maxNesting - (p.depth + levels)
    (∀ ast, p.input.program.result = .ok ast →
      ∃ nodes, ast = .root nodes ∧ ∀ node ∈ nodes, node.isWellFormed ∧ node.depth ≤ maxNesting) ∧
    (∀ answer, (p.answer (.within levels .statement)).result = .ok answer →
      ∃ s : Option Node, answer = .node s ∧
        ∀ node ∈ s, node.isWellFormed ∧ node.depth ≤ room) ∧
    (∀ answer, (p.answer (.within levels .returned)).result = .ok answer →
      ∃ node, answer = .node (some node) ∧ node.isWellFormed ∧ node.depth ≤ room + 1) ∧
    (∀ kind answer, (p.answer (.within levels (.definition kind))).result = .ok answer →
      ∃ node, answer = .node (some node) ∧ node.isWellFormed ∧ node.depth ≤ room + 1) ∧
    (∀ answer, (p.answer (.within levels .body)).result = .ok answer →
      ∃ nodes, answer = .nodes nodes ∧ Node.isBody nodes ∧ ∀ node ∈ nodes, node.depth ≤ room) ∧
    ∀ answer, (p.answer (.within levels .type)).result = .ok answer →
      ∃ e : TypeExpr, answer = .type e ∧ e.isPlain ∧ e.depth ≤ room := by
  intro room
  refine ⟨fun ast => Input.program_bounds, ?_, ?_, ?_, ?_, ?_⟩
  · intro answer h
    obtain ⟨s, rfl, hs⟩ := exists_of_within Parse.statement answer_statement h
    refine ⟨s, rfl, ?_⟩
    rintro node rfl
    exact Parse.statement_bounds hs
  · intro answer h
    obtain ⟨node, rfl, hn⟩ := exists_of_within
      (fun n => Parse.returned (Parse.statement n)) answer_returned h
    exact ⟨node, rfl, Parse.returned_bounds hn⟩
  · intro kind answer h
    obtain ⟨node, rfl, hn⟩ := exists_of_within
      (fun n => Parse.definition (Parse.statement n) (Parse.typeExpr n) kind)
      (answer_definition · kind) h
    exact ⟨node, rfl, Parse.definition_bounds hn⟩
  · intro answer h
    obtain ⟨nodes, rfl, hn⟩ :=
      exists_of_within (fun n => Parse.body (Parse.statement n)) answer_body h
    exact ⟨nodes, rfl, Parse.body_bounds hn⟩
  · intro answer h
    obtain ⟨e, rfl, he⟩ := exists_of_within Parse.typeExpr answer_type h
    exact ⟨e, rfl, Parse.typeExpr_bounds he⟩

/-- A return that is asked for on the last level but one, where its value takes the last one. -/
theorem trees_bounded_on_last_level :
    let p := ofInput ⟨#[⟨.integer, some "1", "x", 1, 1, 2⟩], "x", .strict⟩
    let node := Node.functionReturn (.integer "1")
    (p.answer (.within 255 .returned)).result = .ok (.node (some node)) ∧
      node.isWellFormed ∧ node.depth ≤ 2 := by
  intro p node
  have given : (p.answer (.within 255 .returned)).result = .ok (.node (some node)) := by
    rw [answer, within_of_le (by decide)]
    cbv
  obtain ⟨-, -, bounds, -⟩ := trees_bounded p 255
  obtain ⟨_, same, formed, deep⟩ := bounds _ given
  cases same
  exact ⟨given, formed, deep.trans (by decide)⟩

end Parser

end DefLang
