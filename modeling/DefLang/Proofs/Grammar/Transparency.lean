import DefLang.Proofs.Grammar.Comments

namespace DefLang

namespace Parse

open Grammar (isArrow beginsType)

variable {α : Type}

section Types

variable {type : Parse TypeExpr}

theorem field_shuns : (field type).Shuns isArrow := by
  intro input cursor hidden
  obtain ⟨t, ht, hk⟩ := (Option.any_eq_true _ _).1 hidden
  have arrow : t.kind = .arrow := eq_of_beq hk
  apply requirePast_isFault (fun _ => Token.isLayout_of_isComment) ht
  · simp [Token.isLayout, arrow, Kind.isLayout]
  · simp only [arrow]
    exact fail_isFault rfl

variable (ht : type.Uncomments fun _ => isArrow)

include ht

theorem Uncomments.field : (field type).Uncomments (hiddenByTurn isArrow) := by
  apply (requirePast fun _ => Token.isLayout_of_isComment).andThen
  intro t
  cases t.kind with
  | curlyClose => exact pure _
  | declaration => exact ht.map (fun e => Turn.again (Field.mk t.content e)) fun _ _ => id
  | _ => exact fail _

theorem Uncomments.arrow (argument : TypeExpr) :
    (arrow type argument).Uncomments fun _ => isArrow := by
  refine peek_ite isArrow ?_ ?_ (pure argument) ?_
  · intro t comment
    simp [isArrow, eq_of_beq comment]
  · intro input cursor cursor' code meets
    exact andThen_at (next_at code meets) fun _ =>
      ht.map (TypeExpr.function argument) fun _ _ => id
  · intro input cursor o' behind
    exact .strays rfl behind

end Types

theorem typeExpr_uncomments (room : Nat) :
    (typeExpr room).Uncomments fun _ => isArrow := by
  induction room with
  | zero => exact .fail _
  | succ room ih =>
    apply Uncomments.requireNext_bind
    · intro t
      cases t.kind with
      | identifier => exact ih.arrow _
      | curlyOpen =>
        exact (Uncomments.repeated isArrow (field_advances room) ih.field field_shuns).andThen
          fun fields => ih.arrow _
      | _ => exact .fail _
    · intro t input cursor comment
      have kind : t.kind = .comment := eq_of_beq comment
      simp only [kind]
      exact fail_isFault rfl input cursor

/-- Only a newline may end a header, whatever comments stand before it. -/
theorem headerEnd_shuns {hidden : Option Token → Bool}
    (h : ∀ next, hidden next → ∃ t, next = some t ∧ t.isLayout = false) :
    headerEnd.Shuns hidden := by
  intro input cursor behind
  obtain ⟨t, ht, layout⟩ := h _ behind
  apply requirePast_isFault (fun _ => id) ht
  · by_contra comment
    rw [Token.isLayout_of_isComment (by simpa using comment)] at layout
    cases layout
  · have kind : t.kind ≠ .newline := by
      intro newline
      simp [Token.isLayout, newline, Kind.isLayout] at layout
    simp only [kind, if_false]
    exact fail_isFault rfl

theorem headerEnd_shuns_arrow : headerEnd.Shuns isArrow := by
  apply headerEnd_shuns
  intro next arrow
  obtain ⟨t, rfl, hk⟩ := (Option.any_eq_true _ _).1 arrow
  exact ⟨t, rfl, by simp [Token.isLayout, eq_of_beq hk, Kind.isLayout]⟩

theorem headerEnd_shuns_type : headerEnd.Shuns beginsType := by
  apply headerEnd_shuns
  intro next begins
  obtain ⟨t, rfl, hk⟩ := (Option.any_eq_true _ _).1 begins
  refine ⟨t, rfl, ?_⟩
  cases kind : t.kind <;> simp_all [Kind.beginsType, Token.isLayout, Kind.isLayout]

theorem Uncomments.headerEnd : headerEnd.IgnoresComments := by
  apply (requirePast fun _ => id).andThen
  intro t
  by_cases hk : t.kind = .newline
  · simp only [hk, if_true]
    exact pure _
  · simp only [hk, if_false]
    exact fail _

namespace Uncomments

section Statements

variable {statement : Parse (Option Node)} (hs : statement.IgnoresComments)

include hs

theorem needed (f : Node → α) :
    (statement >>= fun
      | some node => Pure.pure (f node)
      | none => Parse.fail .earlyEnd : Parse α).IgnoresComments := by
  apply hs.andThen
  intro s
  cases s with
  | some node => exact pure _
  | none => exact fail _

theorem returned : (Parse.returned statement).IgnoresComments := needed hs Node.functionReturn

theorem body (ha : (bodyStatement statement).Advances) :
    (Parse.body statement).IgnoresComments := by
  have turn : (bodyStatement statement).IgnoresComments :=
    needed hs fun node => if node.closes then Turn.finish [node] else Turn.again node
  exact repeated (fun _ => false) ha turn.of_ignores fun _ _ => nofun

end Statements

section Definitions

variable {statement : Parse (Option Node)} {type : Parse TypeExpr}
  (hb : (Parse.body statement).IgnoresComments)

include hb

/-- The body after a header. -/
theorem bodyAfter (event : Event) (f : List Node → α) :
    (do
      Parse.tell event
      return f (← Parse.body statement) : Parse α).IgnoresComments :=
  (tell event).andThen fun _ => hb.andThen fun nodes => pure (f nodes)

variable (ht : type.Uncomments fun _ => isArrow)

include ht

theorem definition (kind : Option String) :
    (Parse.definition statement type kind).IgnoresComments := by
  apply requireNext_bind
  · intro t
    by_cases hk : t.kind = .declaration
    · rw [if_pos hk]
      refine peek_ite beginsType ?_ ?_ ?_ ?_
      · intro u comment
        simp [beginsType, eq_of_beq comment, Kind.beginsType]
      · intro input cursor cursor' _ meets
        refine ht.bind ?_ ?_ meets
        · intro signature
          exact headerEnd.andThen fun _ => hb.bodyAfter _ _
        · -- an arrow that the signature does not see is not the end of the header
          exact fun _ => headerEnd_shuns_arrow.bind _
      · apply headerEnd.andThen
        intro u
        by_cases hm : kind = some "module"
        · simp only [hm, if_true]
          exact hb.bodyAfter _ (Node.moduleDefinition t.content)
        · simp only [hm, if_false]
          exact fail _
      · -- nor is a type behind comments, though it is no signature either
        intro input cursor o' behind
        exact .fault (headerEnd_shuns_type.bind _ input cursor behind)
    · rw [if_neg hk]
      exact fail _
  · intro t input cursor comment
    have kind : t.kind ≠ .declaration := by simp [eq_of_beq comment]
    rw [if_neg kind]
    exact fail_isFault rfl input cursor

theorem statementAt (hs : statement.IgnoresComments) (t : Token) :
    (Parse.statementAt statement type t).IgnoresComments := by
  unfold Parse.statementAt
  cases t.kind with
  | atom | integer | float | string | definitionEnd => exact pure _
  | functionReturn => exact hs.returned
  | definition => exact hb.definition ht t.value
  | _ => exact fail _

end Definitions

theorem opener : Parse.opener.IgnoresComments := by
  intro input cursor cursor' meets
  have comments : ∀ t : Token, t.isComment → input.options.passes t := by
    intro t comment
    simp [Options.passes, Token.isLayout_of_isComment comment]
  exact nextPast comments meets

end Uncomments

theorem statement_ignoresComments (room : Nat) : (statement room).IgnoresComments := by
  induction room with
  | zero => exact .fail _
  | succ room ih =>
    rw [statement_succ]
    apply Uncomments.opener.andThen
    intro next
    cases next with
    | none => exact .pure none
    | some t =>
      have body := ih.body (bodyStatement_advances room)
      exact (body.statementAt (typeExpr_uncomments room) ih t).map some fun _ _ => id

theorem programStatement_ignoresComments : programStatement.IgnoresComments := by
  rw [programStatement_eq]
  exact (statement_ignoresComments maxNesting).andThen fun s => .pure (Grammar.turnFrom s)

end Parse

namespace Input

variable {input : Input}

/-- Unless the grammar is at fault, the statements are the same, and they end in the same way. -/
theorem stop_uncommented (input : Input) :
    input.stop.IsFault ∨
      input.uncommented.statements = input.statements ∧
        input.stop.Echoes input input.uncommented.stop :=
  Repetition.run_uncomments (fun _ => false) Parse.programStatement_advances
    Parse.programStatement_ignoresComments.of_ignores (fun _ _ => nofun) input.meets_start

/-- Comments can be left out of a program that is accepted. -/
theorem program_uncommented {ast : Node} (h : input.program.result = .ok ast) :
    let reply := input.program
    let reply' := input.uncommented.program
    reply'.result = .ok ast ∧ reply'.parser.cutShort = reply.parser.cutShort ∧
      reply'.parser.isPastEnd = reply.parser.isPastEnd := by
  intro reply reply'
  obtain ⟨rfl, kept⟩ := program_ok_iff.1 h
  rcases input.stop_uncommented with ⟨d, failed, hg⟩ | ⟨statements, same⟩
  · exact absurd (.inl hg) (kept d failed)
  · -- what becomes of a fault depends on its cause alone
    have kept' : ∀ d', input.uncommented.stop.result = .error d' →
        ¬input.uncommented.options.IsFatal d' := by
      intro d' failed'
      obtain ⟨d, failed, cause⟩ := same.exists_error failed'
      rw [Options.IsFatal, cause]
      exact kept d failed
    refine ⟨program_ok_iff.2 ⟨by rw [statements], kept'⟩, ?_, ?_⟩
    · rw [Bool.eq_iff_iff, program_cutShort_iff, program_cutShort_iff]
      cases same with
      | gives given given' => simp [given, given']
      | fails failed failed' => simp [failed, failed', kept, kept']
    · rw [program_isPastEnd, program_isPastEnd, same.meets.isPastEnd]

/-- A module that is cut short inside a function, with comments wherever they may stand. -/
theorem program_uncommented_in_module :
    let comment (line : Nat) : Token := ⟨.comment, some "# x", "m", line, 9, 12⟩
    let newline (line : Nat) : Token := ⟨.newline, none, "m", line, 13, 13⟩
    let input : Input := ⟨#[
      comment 1, newline 1, ⟨.atom, some ":a", "m", 2, 1, 3⟩, comment 2, newline 2,
      ⟨.definition, some "module", "m", 3, 1, 9⟩, ⟨.declaration, some "A:", "m", 3, 11, 12⟩,
      comment 3, newline 3, comment 4, newline 4, ⟨.definition, none, "m", 5, 1, 3⟩,
      ⟨.declaration, some "f:", "m", 5, 5, 6⟩, ⟨.identifier, some "Int", "m", 5, 8, 10⟩,
      comment 5, newline 5, ⟨.functionReturn, none, "m", 6, 1, 3⟩, comment 6], "m", .lenient⟩
    let ast := Node.root [.atom ":a"]
    input.program.result = .ok ast ∧ input.uncommented.program.result = .ok ast ∧
      input.uncommented.program.parser.cutShort = input.program.parser.cutShort ∧
      input.uncommented.program.parser.isPastEnd = input.program.parser.isPastEnd := by
  intro comment newline input ast
  have h : input.program.result = .ok ast := by cbv
  exact ⟨h, program_uncommented h⟩

end Input

end DefLang
