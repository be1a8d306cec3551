import DefLang.Proofs.Grammar.Nesting

namespace DefLang

namespace Parse

variable {m n : Nat}

theorem returned_cuts (h : m ≤ n) : (returned (statement m)).Cuts (returned (statement n)) :=
  Cuts.congruence.returned (statement_cuts h)

theorem body_cuts (h : m ≤ n) : (body (statement m)).Cuts (body (statement n)) :=
  Cuts.congruence.body (statement_cuts h) (bodyStatement_advances m) (bodyStatement_advances n)

theorem definition_cuts (h : m ≤ n) (kind : Option String) :
    (definition (statement m) (typeExpr m) kind).Cuts
      (definition (statement n) (typeExpr n) kind) :=
  Cuts.congruence.definition (body_cuts h) (typeExpr_cuts h) kind

end Parse

namespace Reply

variable {α β : Type} {r r' : Reply α}

def IsTooDeep (r : Reply α) : Prop :=
  ∃ limit position, r.result = .error ⟨.nestingTooDeep limit, position⟩

/-- The first reply says what the second one does, or it comes before that for want of room. The
levels that the parsers are left in play no part. -/
def Cuts (r r' : Reply α) : Prop :=
  (r.result = r'.result ∧ r.parser.cursor = r'.parser.cursor ∧ r.events = r'.events) ∨
    r.IsTooDeep ∧ r.parser.cursor ≤ r'.parser.cursor

namespace Cuts

theorem map (h : r.Cuts r') (f : α → β) : (r.map f).Cuts (r'.map f) := by
  rcases h with ⟨result, cursor, events⟩ | ⟨⟨limit, position, deep⟩, before⟩
  · exact .inl ⟨congrArg (Except.map f) result, cursor, events⟩
  · exact .inr ⟨⟨limit, position, congrArg (Except.map f) deep⟩, before⟩

/-- Where the second reply lacks room, so does the first one. -/
theorem isTooDeep (h : r.Cuts r') (deep : r'.IsTooDeep) :
    r.IsTooDeep ∧ r.parser.cursor ≤ r'.parser.cursor := by
  rcases h with ⟨result, cursor, -⟩ | cut
  · rw [IsTooDeep, result]
    exact ⟨deep, cursor.le⟩
  · exact cut

end Cuts

end Reply

namespace Parser

variable {α : Type} {p : Parser}

def deeper (p : Parser) (levels : Nat) : Parser := { p with depth := p.depth + levels }

theorem run_cuts {a b : Parse α} (h : a.Cuts b) (levels : Nat) :
    ((p.deeper levels).run a).Cuts (p.run b) := by
  rcases h.cuts p.input p.cursor with same | ⟨⟨position, deep⟩, before⟩
  · exact .inl ⟨congrArg Outcome.result same, congrArg Outcome.cursor same,
      congrArg Outcome.events same⟩
  · exact .inr ⟨⟨maxNesting, position, deep⟩, before⟩

/-- A call that there is no room for comes before whatever else it could give. -/
theorem run_tooDeep_cuts {levels : Nat} {call : Call} (hp : p.depth ≤ maxNesting) :
    ((p.deeper levels).run Parse.tooDeep).Cuts (p.answer call) :=
  .inr ⟨⟨maxNesting, _, rfl⟩, (answer_movesTo call hp).forward⟩

theorem room_deeper_le (p : Parser) (levels : Nat) : (p.deeper levels).room ≤ p.room :=
  Nat.sub_le_sub_left (Nat.le_add_right _ _) _

/-- Some levels deeper a call gives the same, or too few of them are left. -/
theorem answer_cuts (call : Call) {levels : Nat} (h : p.depth + levels ≤ maxNesting) :
    ((p.deeper levels).answer call).Cuts (p.answer call) := by
  have less := p.room_deeper_le levels
  induction call generalizing p with
  | advance | current | requireCurrent | passComments | passLayout | earlyEnd | options =>
    exact .inl ⟨rfl, rfl, rfl⟩
  | statement =>
    rw [answer_statement, answer_statement]
    exact (run_cuts (Parse.statement_cuts less) levels).map _
  | returned =>
    rw [answer_returned, answer_returned]
    exact (run_cuts (Parse.returned_cuts less) levels).map _
  | definition kind =>
    rw [answer_definition, answer_definition]
    exact (run_cuts (Parse.definition_cuts less kind) levels).map _
  | body =>
    rw [answer_body, answer_body]
    exact (run_cuts (Parse.body_cuts less) levels).map _
  | type =>
    rw [answer_type, answer_type]
    exact (run_cuts (Parse.typeExpr_cuts less) levels).map _
  | within inner call ih =>
    rw [answer]
    by_cases made : (p.deeper levels).depth + inner ≤ maxNesting
    · have outer : p.depth + inner ≤ maxNesting := by
        simp only [deeper] at made
        omega
      have inside := @ih (p.deeper inner) (by simp only [deeper] at made ⊢; omega)
        (room_deeper_le _ _)
      have swap : (p.deeper inner).deeper levels = (p.deeper levels).deeper inner := by
        simp only [deeper, Nat.add_right_comm]
      rw [swap] at inside
      rw [answer, within_of_le made, within_of_le outer]
      exact inside
    · have some : 0 < inner := by
        simp only [deeper] at made
        omega
      rw [within_of_lt some (Nat.lt_of_not_le made)]
      exact run_tooDeep_cuts (by omega)

/-- One parser moves to no two at the same cursor. -/
theorem MovesTo.unique {q q' : Parser} (h : p.MovesTo q) (h' : p.MovesTo q')
    (cursor : q.cursor = q'.cursor) : q = q' := by
  obtain ⟨input, next, depth, cutShort⟩ := q
  obtain ⟨input', next', depth', cutShort'⟩ := q'
  obtain ⟨rfl, rfl, rfl, -⟩ := h
  obtain ⟨rfl, rfl, rfl, -⟩ := h'
  cases cursor
  rfl

/-- More levels around a call, up to all there are and beyond them, leave less room for it. -/
theorem within_cuts (call : Call) {m n : Nat} (hp : p.depth ≤ maxNesting) (h : m ≤ n) :
    (p.answer (.within n call)).Cuts (p.answer (.within m call)) := by
  by_cases made : p.depth + n ≤ maxNesting
  · obtain ⟨more, rfl⟩ := Nat.exists_eq_add_of_le h
    have outer : p.depth + m ≤ maxNesting := by omega
    have inside := @answer_cuts (p.deeper m) call more (by simp only [deeper]; omega)
    have sum : (p.deeper m).deeper more = p.deeper (m + more) := by
      simp only [deeper, Nat.add_assoc]
    rw [sum] at inside
    rw [answer, answer, within_of_le made, within_of_le outer]
    exact inside
  · have unmade : p.answer (.within n call) = p.run Parse.tooDeep :=
      within_of_lt (by omega) (Nat.lt_of_not_le made)
    rw [unmade]
    exact @run_tooDeep_cuts p 0 (.within m call) hp

/-- Levels of nesting around a call only cut it short. With fewer of them it gives the same, and
leaves the same parser, unless it lacked room. Where it lacks room with fewer, it did so before, and
came no further. -/
theorem budget_only_cuts (call : Call) {m n : Nat} (room : p.depth ≤ maxNesting) (fewer : m ≤ n) :
    let wide := p.answer (.within m call)
    let narrow := p.answer (.within n call)
    (¬narrow.IsTooDeep → wide = narrow) ∧
      (wide.IsTooDeep → narrow.IsTooDeep ∧ narrow.parser.cursor ≤ wide.parser.cursor) := by
  intro wide narrow
  have cuts : narrow.Cuts wide := within_cuts call room fewer
  refine ⟨fun enough => ?_, cuts.isTooDeep⟩
  rcases cuts with ⟨result, cursor, events⟩ | ⟨tooDeep, -⟩
  · have parser : wide.parser = narrow.parser :=
      (answer_movesTo (.within m call) room).unique (answer_movesTo (.within n call) room)
        cursor.symm
    show wide = ⟨narrow.result, narrow.parser, narrow.events⟩
    rw [result, ← parser, events]
  · exact absurd tooDeep enough

/-- A definition, with as many levels around it as leave room for its type, with one more, and with
all of them. -/
theorem budget_only_cuts_definition :
    let p := ofInput ⟨#[
      ⟨.declaration, some "f:", "x", 1, 5, 6⟩, ⟨.identifier, some "A", "x", 1, 8, 9⟩,
      ⟨.arrow, some "->", "x", 1, 10, 12⟩, ⟨.identifier, some "B", "x", 1, 13, 14⟩,
      ⟨.newline, none, "x", 1, 14, 14⟩, ⟨.definitionEnd, none, "x", 2, 1, 4⟩], "x", .lenient⟩
    let around (levels : Nat) := p.answer (.within levels (.definition none))
    let signature := TypeExpr.function (.named "A" none) (.named "B" none)
    (around 254).result =
        .ok (.node (some (.functionDefinition "f:" signature [.definitionEnd]))) ∧
      around 0 = around 254 ∧
      (around 255).IsTooDeep ∧ (around 255).parser.cursor = 3 ∧
      (around 256).IsTooDeep ∧ (around 256).parser.cursor ≤ (around 255).parser.cursor := by
  intro p around signature
  have fits : (around 254).result =
      .ok (.node (some (.functionDefinition "f:" signature [.definitionEnd]))) := by
    simp only [around]
    rw [answer, within_of_le (by decide)]
    cbv
  have cut : (around 255).result = .error ⟨.nestingTooDeep maxNesting, ⟨"x", 1, 10⟩⟩ ∧
      (around 255).parser.cursor = 3 := by
    simp only [around]
    rw [answer, within_of_le (by decide)]
    constructor <;> cbv
  have enough : ¬(around 254).IsTooDeep := by
    rintro ⟨limit, position, deep⟩
    rw [fits] at deep
    cases deep
  have deep : (around 255).IsTooDeep := ⟨maxNesting, _, cut.1⟩
  have same := (@budget_only_cuts p (.definition none) 0 254 (by decide) (by decide)).1 enough
  have later := (@budget_only_cuts p (.definition none) 255 256 (by decide) (by decide)).2 deep
  exact ⟨fits, same, deep, cut.2, later⟩

end Parser

end DefLang
