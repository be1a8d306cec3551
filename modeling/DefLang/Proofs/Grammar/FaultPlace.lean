import DefLang.Proofs.Grammar.Programs
import DefLang.Proofs.Grammar.Session

namespace DefLang

def Cause.token? : Cause → Option String
  | invalidToken text | invalidDefinition text | fieldExpected text | typeExpected text
  | unexpectedToken text => some text
  | readFailure _ | unsupportedDefinition _ | earlyEnd | nestingTooDeep _ => none

def Call.innermost : Call → Call
  | .within _ call => call.innermost
  | call => call

namespace Diagnostic

/-- The fault is that of a parser which stands where it happened. -/
structure PointsAt (d : Diagnostic) (p : Parser) : Prop where
  position : d.position = p.position
  ended : d.cause = .earlyEnd → p.current? = none
  token : d.cause.isGrammatical →
    ∃ t, p.current? = some t ∧ ∀ text, d.cause.token? = some text → text = t.mention

theorem StandsAt.pointsAt {d : Diagnostic} {p : Parser} (h : d.StandsAt p.input p.cursor) :
    d.PointsAt p := by
  have onToken := h.current?_of_isGrammatical
  obtain ⟨position, s, fits, holds⟩ := h
  refine ⟨position, ?_, ?_⟩
  · intro early
    rw [early] at fits
    obtain rfl : s = .ended := fits
    exact holds
  · intro grammatical
    cases hc : d.cause with
    | invalidDefinition text | fieldExpected text | typeExpected text | unexpectedToken text =>
      rw [hc] at fits
      obtain ⟨t, rfl, rfl⟩ := fits
      refine ⟨t, holds, ?_⟩
      rintro _ ⟨⟩
      rfl
    | unsupportedDefinition kind =>
      obtain ⟨t, current⟩ := Option.isSome_iff_exists.1 (onToken grammatical)
      exact ⟨t, current, by simp [Cause.token?]⟩
    | invalidToken | readFailure | earlyEnd | nestingTooDeep =>
      rw [hc] at grammatical
      cases grammatical

end Diagnostic

namespace Parse

theorem current_leads : current.Leads .anywhere .reached := fun _ _ _ => Standing.holds_reached _

theorem requireCurrent_leads : requireCurrent.Leads .anywhere .on :=
  current_leads.bind Leads.congruence.orEnd

theorem moveOff_leads (pass : Token → Bool) :
    (moveOff pass).Leads .anywhere fun _ => .anywhere := by
  refine current_leads.bind fun token => ?_
  split
  · exact fun _ _ _ => trivial
  · exact fun _ _ _ => trivial

theorem returned_leads (room : Nat) :
    (returned (statement room)).Leads .anywhere fun _ => .token :=
  @Congruence.returned _ Leads.congruence _ (statement room) (statement_leads room)

theorem body_leads (room : Nat) : (body (statement room)).Leads .anywhere fun _ => .token :=
  Leads.congruence.body (statement_leads room) (bodyStatement_advances room)
    (bodyStatement_advances room)

theorem definition_leads (room : Nat) (kind : Option String) :
    (definition (statement room) (typeExpr room) kind).Leads .anywhere fun _ => .token :=
  @Congruence.definition _ Leads.congruence _ (statement room) _ (typeExpr room)
    (body_leads room) (typeExpr_leads room) kind

end Parse

def Reply.Points {α : Type} (r : Reply α) : Prop :=
  ∀ d, r.result = .error d → d.PointsAt r.parser

namespace Parser

variable {α : Type} {after : α → Standing}

theorem points_of_leads {parse : Parse α} (h : parse.Leads .anywhere after) (p : Parser) :
    (p.run parse).Points := by
  intro d fault
  have lands := h p.input p.cursor trivial
  have result : (parse p.input p.cursor).result = .error d := fault
  unfold Outcome.Lands at lands
  rw [result] at lands
  exact lands.pointsAt

theorem points_tooDeep (p : Parser) : (p.run (Parse.tooDeep : Parse α)).Points := by
  have leads : (Parse.tooDeep : Parse α).Leads .anywhere fun _ => .anywhere :=
    Parse.Leads.congruence.tooDeep
  exact points_of_leads leads p

end Parser

namespace Reply

variable {α β : Type}

theorem Points.map {r : Reply α} (h : r.Points) (f : α → β) : (r.map f).Points := by
  intro d fault
  obtain ⟨result, parser, events⟩ := r
  cases result with
  | ok a => cases fault
  | error e =>
    cases fault
    exact h d rfl

/-- Leaving a level of nesting moves nothing. -/
theorem Points.leave {r : Reply α} (h : r.Points) : r.leave.Points := by
  intro d fault
  obtain ⟨position, ended, token⟩ := h d fault
  exact ⟨position, ended, token⟩

end Reply

namespace Parser

variable {α : Type}

theorem points_within {call : Parser → Reply α} (h : ∀ p, (call p).Points) (levels : Nat)
    (p : Parser) : (p.within call levels).Points := by
  induction levels generalizing p with
  | zero => exact h p
  | succ levels ih =>
    rw [within, nested]
    split
    · exact (ih _).leave
    · exact points_tooDeep p

theorem points_answer {call : Call} (h : call.innermost ≠ .earlyEnd) (p : Parser) :
    (p.answer call).Points := by
  induction call generalizing p with
  | advance => exact (points_of_leads (.nextPast _) p).map _
  | current | options => rintro d ⟨⟩
  | requireCurrent => exact (points_of_leads Parse.requireCurrent_leads p).map _
  | passComments | passLayout => exact (points_of_leads (Parse.moveOff_leads _) p).map _
  | earlyEnd => exact absurd rfl h
  | statement =>
    rw [answer_statement]
    exact (points_of_leads (Parse.statement_leads p.room) p).map _
  | returned =>
    rw [answer_returned]
    exact (points_of_leads (Parse.returned_leads p.room) p).map _
  | definition kind =>
    rw [answer_definition]
    exact (points_of_leads (Parse.definition_leads p.room kind) p).map _
  | body =>
    rw [answer_body]
    exact (points_of_leads (Parse.body_leads p.room) p).map _
  | type =>
    rw [answer_type]
    exact (points_of_leads (Parse.typeExpr_leads p.room) p).map _
  | within levels call ih => exact points_within (fun p => ih h p) levels p

theorem points_program {input : Input} {d : Diagnostic} (fault : input.program.result = .error d) :
    d.PointsAt input.program.parser := by
  have lands := input.stop_lands
  unfold Outcome.Lands at lands
  rw [(Input.program_error_iff.1 fault).1] at lands
  apply Diagnostic.StandsAt.pointsAt
  rwa [Input.program_input, Input.program_cursor]

/-- Wherever a parser stands and whatever it is asked, a fault has its position as it is left then.
At an early end it stands on no token; at a fault of the grammar it stands on the one that is
mentioned. So it is for a whole program. -/
theorem faults_point_at_cursor :
    (∀ (p : Parser) (call : Call) (d : Diagnostic), call.innermost ≠ .earlyEnd →
      (p.answer call).result = .error d → d.PointsAt (p.answer call).parser) ∧
    ∀ (input : Input) (d : Diagnostic), input.program.result = .error d →
      d.PointsAt input.program.parser := by
  constructor
  · intro p call d made fault
    exact points_answer made p d fault
  · intro input d fault
    exact points_program fault

/-- A field without its name, read as part of a type inside two levels of nesting and as part of a
program. -/
theorem faults_point_at_cursor_in_struct :
    let input : Input := ⟨#[
      ⟨.definition, none, "x", 1, 1, 4⟩, ⟨.declaration, some "f:", "x", 1, 5, 6⟩,
      ⟨.curlyOpen, some "\x7b", "x", 1, 8, 9⟩, ⟨.newline, none, "x", 1, 9, 9⟩,
      ⟨.identifier, some "A", "x", 2, 1, 2⟩, ⟨.curlyClose, some "\x7d", "x", 2, 2, 3⟩],
      "x", .lenient⟩
    let p := (ofInput input).afterCalls [.advance, .advance]
    let d : Diagnostic := ⟨.fieldExpected "A", ⟨"x", 2, 1⟩⟩
    (p.answer (.within 2 .type)).result = .error d ∧
      d.PointsAt (p.answer (.within 2 .type)).parser ∧
      input.program.result = .error d ∧ d.PointsAt input.program.parser := by
  intro input p d
  have call : (p.answer (.within 2 .type)).result = .error d := by cbv
  have whole : input.program.result = .error d := by cbv
  have innermost := faults_point_at_cursor.1 p (.within 2 .type) d (by simp [Call.innermost]) call
  exact ⟨call, innermost, whole, faults_point_at_cursor.2 input d whole⟩

end Parser

end DefLang
