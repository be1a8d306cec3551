import DefLang.Grammar.Call

namespace DefLang

namespace Descent

/-- In a parser so many levels deep, a descent is a parse that knows of no levels: it leaves the
counter as it was. -/
def RunsAt {α : Type} (depth : Nat) (d : Descent α) (parse : Parse α) : Prop :=
  ∀ p : Parser, p.depth = depth → d p = p.run parse

namespace RunsAt

variable {α β : Type} {depth : Nat} {d : Descent α} {parse : Parse α}

theorem pure (a : α) : RunsAt depth (Pure.pure a) (Pure.pure a) := fun _ _ => rfl

theorem lift (parse : Parse α) : RunsAt depth (liftM parse) parse := fun _ _ => rfl

/-- What would come after a fault plays no part. -/
theorem fault (cause : Cause) (f : α → Descent β) (g : α → Parse β) :
    ((liftM (Parse.fail cause : Parse α) : Descent α) >>= f).RunsAt depth
      (Parse.fail cause >>= g) :=
  fun _ _ => rfl

theorem bind {f : α → Descent β} {g : α → Parse β} (h : d.RunsAt depth parse)
    (hf : ∀ a, (f a).RunsAt depth (g a)) : (d >>= f).RunsAt depth (parse >>= g) := by
  intro p hp
  cases hr : (parse p.input p.cursor).result with
  | error e =>
    have failed : (d p).result = .error e := by rw [h p hp]; exact hr
    rw [Descent.bind_error failed, h p hp, Parser.run, Parser.run, Parse.bind_error hr]
  | ok a =>
    have given : (d p).result = .ok a := by rw [h p hp]; exact hr
    have rest := hf a (p.run parse).parser hp
    rw [Descent.bind_ok given, h p hp, rest, Parser.run, Parser.run, Parser.run, Parse.bind_ok hr]
    rfl

/-- What is parsed one level deeper is parsed with one level less. The level that is entered is left
again. -/
theorem nested {parses : Nat → Parse α} (none : parses 0 = Parse.tooDeep)
    (h : depth < maxNesting → d.RunsAt (depth + 1) (parses (maxNesting - (depth + 1) + 1))) :
    RunsAt depth (fun p => p.nested d) (parses (maxNesting - depth)) := by
  intro p hp
  subst hp
  by_cases room : p.depth < maxNesting
  · have left : maxNesting - p.depth = maxNesting - (p.depth + 1) + 1 := by omega
    refine (Parser.nested_of_lt room).trans ?_
    rw [left, h room { p with depth := p.depth + 1 } rfl]
    rfl
  · have left : maxNesting - p.depth = 0 := by omega
    rw [left, none]
    exact Parser.nested_of_le (Nat.le_of_not_lt room)

theorem turnsOnto {turn : Descent (Turn α)} {parse : Parse (Turn α)} (h : turn.RunsAt depth parse)
    (before : List (Outcome (Turn α))) (p : Parser) (hp : p.depth = depth) :
    turn.turnsOnto before p =
      let r := Repetition.turnsOnto parse p.input before p.cursor
      (r, { p with cursor := r.last.cursor }) := by
  induction hn : p.input.tokens.size - p.cursor using Nat.strongRecOn generalizing before p with
  | _ n ih =>
    rw [Descent.turnsOnto, h p hp]
    by_cases goes : (parse p.input p.cursor).goesOn p.input p.cursor
    · rw [Repetition.turnsOnto_of_goesOn goes]
      have less := hn ▸ Outcome.decreases_of_goesOn goes
      exact (if_pos goes).trans (ih _ less _ _ hp rfl)
    · rw [Repetition.turnsOnto_of_stop goes]
      exact if_neg goes

theorem turns {turn : Descent (Turn α)} {parse : Parse (Turn α)} (h : turn.RunsAt depth parse)
    (p : Parser) (hp : p.depth = depth) :
    turn.turns p =
      let r := Repetition.run parse p.input p.cursor
      (r, { p with cursor := r.last.cursor }) :=
  h.turnsOnto [] p hp

theorem repeats {turn : Descent (Turn α)} {parse : Parse (Turn α)} (h : turn.RunsAt depth parse) :
    (repeats turn : Descent (List α)).RunsAt depth (repeats parse) := by
  intro p hp
  show Descent.repeated turn p = _
  rw [Descent.repeated, h.turns p hp]
  rfl

section Types

variable {type : Descent TypeExpr} {typeExpr : Parse TypeExpr} (h : type.RunsAt depth typeExpr)

include h

theorem field : (Parse.field type).RunsAt depth (Parse.field typeExpr) := by
  refine (lift _).bind fun t => ?_
  cases t.kind with
  | curlyClose => exact pure _
  | declaration => exact h.bind fun _ => pure _
  | _ => exact lift _

theorem arrow (argument : TypeExpr) :
    (Parse.arrow type argument).RunsAt depth (Parse.arrow typeExpr argument) := by
  refine (lift _).bind fun t => ?_
  cases t.any (·.kind == .arrow) with
  | true => exact (lift _).bind fun _ => h.bind fun _ => pure _
  | false => exact pure _

theorem nextType : (Parse.nextType type).RunsAt depth (Parse.nextType typeExpr) := by
  refine (lift _).bind fun t => ?_
  cases t.kind with
  | identifier => exact h.arrow _
  | curlyOpen => exact h.field.repeats.bind fun _ => h.arrow _
  | _ => exact lift _

end Types

section Statements

variable {statement : Descent (Option Node)} {statement' : Parse (Option Node)}
  (hs : statement.RunsAt depth statement')

include hs

/-- Where the input may not end. -/
theorem needed {f : Node → Descent α} {g : Node → Parse α}
    (hf : ∀ node, (f node).RunsAt depth (g node)) :
    (do
      match ← statement with
      | some node => f node
      | none => liftM (Parse.fail .earlyEnd : Parse α) : Descent α).RunsAt depth
      (do
        match ← statement' with
        | some node => g node
        | none => Parse.fail .earlyEnd) := by
  refine hs.bind fun s => ?_
  cases s with
  | some node => exact hf node
  | none => exact lift _

theorem returned : (Parse.returned statement).RunsAt depth (Parse.returned statement') :=
  hs.needed fun _ => pure _

theorem bodyStatement :
    (Parse.bodyStatement statement).RunsAt depth (Parse.bodyStatement statement') :=
  hs.needed fun _ => pure _

theorem body : (Parse.body statement).RunsAt depth (Parse.body statement') :=
  hs.bodyStatement.repeats

variable {type : Descent TypeExpr} {type' : Parse TypeExpr} (ht : type.RunsAt depth type')

include ht

theorem definition (kind : Option String) :
    (Parse.definition statement type kind).RunsAt depth
      (Parse.definition statement' type' kind) := by
  refine (lift _).bind fun declaration => ?_
  by_cases named : declaration.kind = .declaration
  · simp only [named, if_true]
    refine (lift _).bind fun next => ?_
    cases next.any (·.kind.beginsType) with
    | true =>
      refine ht.bind fun signature => (lift _).bind fun _ => (lift _).bind fun _ => ?_
      exact hs.body.bind fun _ => pure _
    | false =>
      refine (lift _).bind fun _ => ?_
      by_cases module : kind = some "module"
      · simp only [module, if_true]
        exact (lift _).bind fun _ => hs.body.bind fun _ => pure _
      · simp only [module, if_false]
        exact lift _
  · simp only [named, if_false]
    exact fault _ _ _

theorem statementAt (t : Token) :
    (Parse.statementAt statement type t).RunsAt depth (Parse.statementAt statement' type' t) := by
  unfold Parse.statementAt
  cases t.kind with
  | atom | integer | float | string | definitionEnd => exact pure _
  | functionReturn => exact hs.returned
  | definition => exact hs.definition ht t.value
  | _ => exact lift _

theorem nextStatement :
    (Parse.nextStatement statement type).RunsAt depth
      (Parse.nextStatement statement' type') := by
  refine (lift _).bind fun options => (lift _).bind fun next => ?_
  cases next with
  | some t => exact (hs.statementAt ht t).bind fun _ => pure _
  | none => exact pure _

end Statements

end RunsAt

/-- Any bound will do that the counter comes before. -/
theorem typeWithin_runsAt {n depth : Nat} (h : maxNesting < depth + n) :
    (typeWithin n).RunsAt depth (Parse.typeExpr (maxNesting - depth)) := by
  induction n generalizing depth with
  | zero =>
    have left : maxNesting - depth = 0 := by omega
    rw [left]
    exact .lift _
  | succ n ih => exact .nested rfl fun _ => (ih (by omega)).nextType

theorem typeExpr_runsAt (depth : Nat) :
    typeExpr.RunsAt depth (Parse.typeExpr (maxNesting - depth)) :=
  typeWithin_runsAt (by omega)

theorem statementWithin_runsAt {n depth : Nat} (h : maxNesting < depth + n) :
    (statementWithin n).RunsAt depth (Parse.statement (maxNesting - depth)) := by
  induction n generalizing depth with
  | zero =>
    have left : maxNesting - depth = 0 := by omega
    rw [left]
    exact .lift _
  | succ n ih =>
    exact .nested rfl fun _ => RunsAt.nextStatement (ih (by omega)) (typeExpr_runsAt _)

theorem statement_runsAt (depth : Nat) :
    statement.RunsAt depth (Parse.statement (maxNesting - depth)) :=
  statementWithin_runsAt (by omega)

end Descent

namespace Parser

theorem answer_statement (p : Parser) :
    p.answer .statement = (p.run (Parse.statement p.room)).map .node :=
  congrArg (Reply.map _) (Descent.statement_runsAt p.depth p rfl)

theorem answer_returned (p : Parser) :
    p.answer .returned =
      (p.run (Parse.returned (Parse.statement p.room))).map fun n => .node (some n) :=
  congrArg (Reply.map _) ((Descent.statement_runsAt p.depth).returned p rfl)

theorem answer_definition (p : Parser) (kind : Option String) :
    p.answer (.definition kind) =
      (p.run (Parse.definition (Parse.statement p.room) (Parse.typeExpr p.room) kind)).map
        fun n => .node (some n) :=
  congrArg (Reply.map _) ((Descent.statement_runsAt p.depth).definition
    (Descent.typeExpr_runsAt p.depth) kind p rfl)

theorem answer_body (p : Parser) :
    p.answer .body = (p.run (Parse.body (Parse.statement p.room))).map .nodes :=
  congrArg (Reply.map _) ((Descent.statement_runsAt p.depth).body p rfl)

theorem answer_type (p : Parser) :
    p.answer .type = (p.run (Parse.typeExpr p.room)).map .type :=
  congrArg (Reply.map _) (Descent.typeExpr_runsAt p.depth p rfl)

end Parser

theorem Descent.programTurn_runsAt :
    (Parse.programTurn Descent.statement).RunsAt 0 Parse.programStatement := by
  refine (statement_runsAt 0).bind fun s => ?_
  cases s with
  | some node => exact .pure _
  | none => exact .pure _

/-- A program is read from statement to statement without a counter. -/
theorem Input.program_eq (input : Input) :
    input.program =
      let run := Repetition.run Parse.programStatement input 0
      let parser : Parser := ⟨input, run.last.cursor, 0, false⟩
      let parsed := Event.parsed run.items.length input.file
      match run.last.result with
      | .ok _ => ⟨.ok (.root run.items), parser, run.events ++ [parsed]⟩
      | .error d =>
        if d.cause.isGrammatical || input.options.truncation = .fail then
          ⟨.error d, parser, run.events⟩
        else
          ⟨.ok (.root run.items), { parser with cutShort := true },
            run.events ++ [.stoppedEarly input.file d, parsed]⟩ := by
  rw [program, Descent.programTurn_runsAt.turns (Parser.ofInput input) rfl]
  rfl

end DefLang
