import DefLang.Proofs.Grammar.Counter
import DefLang.Proofs.Grammar.Locality

namespace DefLang

def Input.lastPosition (input : Input) : Position :=
  (input.tokens.back?.map Token.position).getD ⟨input.file, 1, 0⟩

namespace Call

def levels : Call → Nat
  | .within levels call => levels + call.levels
  | _ => 0

/-- What a call gives once the tokens are used up, if it is made at all. -/
def answerPastEnd (input : Input) : Call → Except Diagnostic Answer
  | .advance | .current => .ok (.token none)
  | .passComments | .passLayout => .ok .nothing
  | .options => .ok (.options input.options)
  | .statement => .ok (.node none)
  | .requireCurrent | .earlyEnd | .returned | .definition _ | .body | .type =>
    .error ⟨.earlyEnd, input.lastPosition⟩
  | .within _ call => call.answerPastEnd input

end Call

namespace Input

variable {input : Input} {cursor next : Nat}

theorem isPastEnd_of_le (h : input.isPastEnd cursor) (hle : cursor ≤ next) :
    input.isPastEnd next := by
  simp only [isPastEnd, decide_eq_true_eq] at h ⊢
  omega

theorem current?_of_isPastEnd (h : input.isPastEnd cursor) : input.current? cursor = none := by
  simp only [isPastEnd, decide_eq_true_eq] at h
  cases cursor with
  | zero => rfl
  | succ index => exact Array.getElem?_eq_none (Nat.le_of_lt_succ h)

theorem position_of_isPastEnd (h : input.isPastEnd cursor) :
    input.position cursor = input.lastPosition := by
  rw [position, current?_of_isPastEnd h, lastPosition]
  cases input.tokens.back? <;> rfl

end Input

namespace Parse

variable {α β : Type} {input : Input}

/-- Past the last token the parser gives this, and stays there. -/
def EndsAs (input : Input) (p : Parse α) (result : Except Diagnostic α) : Prop :=
  ∀ cursor, input.isPastEnd cursor →
    (p input cursor).result = result ∧ input.isPastEnd (p input cursor).cursor

namespace EndsAs

theorem bind {p : Parse α} {f : α → Parse β} {a : α} {result : Except Diagnostic β}
    (hp : p.EndsAs input (.ok a)) (hf : (f a).EndsAs input result) :
    (p >>= f).EndsAs input result := by
  intro cursor h
  obtain ⟨first, later⟩ := hp cursor h
  rw [bind_ok first]
  exact hf _ later

theorem bind_error {p : Parse α} {f : α → Parse β} {d : Diagnostic}
    (hp : p.EndsAs input (.error d)) : (p >>= f).EndsAs input (.error d) := by
  intro cursor h
  obtain ⟨first, later⟩ := hp cursor h
  rw [Parse.bind_error first]
  exact ⟨rfl, later⟩

theorem pure (a : α) : (Pure.pure a : Parse α).EndsAs input (.ok a) := fun _ h => ⟨rfl, h⟩

theorem current : Parse.current.EndsAs input (.ok none) :=
  fun _ h => ⟨congrArg Except.ok (Input.current?_of_isPastEnd h), h⟩

theorem nextPast (pass : Token → Bool) : (Parse.nextPast pass).EndsAs input (.ok none) := by
  intro cursor h
  have none : input.tokens[cursor]? = none :=
    Input.current?_of_isPastEnd (Input.isPastEnd_of_le h (Nat.le_succ cursor))
  rw [nextPast_of_stop (by simp [none]), none]
  exact ⟨rfl, Input.isPastEnd_of_le h (Nat.le_succ cursor)⟩

theorem earlyEnd : (Parse.fail .earlyEnd : Parse α).EndsAs input
    (.error ⟨.earlyEnd, input.lastPosition⟩) := by
  intro cursor h
  rw [← Input.position_of_isPastEnd h]
  exact ⟨rfl, h⟩

theorem requireNext :
    Parse.requireNext.EndsAs input (.error ⟨.earlyEnd, input.lastPosition⟩) :=
  (nextPast _).bind earlyEnd

section

variable {room : Nat} (h : 0 < room)

include h

theorem statement : (Parse.statement room).EndsAs input (.ok none) := by
  obtain ⟨room, rfl⟩ := Nat.exists_eq_add_one.2 h
  rw [statement_succ]
  exact bind (nextPast input.options.passes) (pure none)

theorem type :
    (Parse.typeExpr room).EndsAs input (.error ⟨.earlyEnd, input.lastPosition⟩) := by
  obtain ⟨room, rfl⟩ := Nat.exists_eq_add_one.2 h
  exact requireNext.bind_error

theorem returned : (Parse.returned (Parse.statement room)).EndsAs input
    (.error ⟨.earlyEnd, input.lastPosition⟩) :=
  (statement h).bind earlyEnd

theorem body : (Parse.body (Parse.statement room)).EndsAs input
    (.error ⟨.earlyEnd, input.lastPosition⟩) := by
  intro cursor ended
  have turn : (bodyStatement (Parse.statement room)).EndsAs input
      (.error ⟨.earlyEnd, input.lastPosition⟩) := (statement h).bind earlyEnd
  obtain ⟨first, later⟩ := turn cursor ended
  rw [body_eq, repeated_error first]
  exact ⟨rfl, later⟩

end

theorem definition (statement : Parse (Option Node)) (type : Parse TypeExpr)
    (kind : Option String) : (Parse.definition statement type kind).EndsAs input
      (.error ⟨.earlyEnd, input.lastPosition⟩) :=
  requireNext.bind_error

theorem requireCurrent :
    Parse.requireCurrent.EndsAs input (.error ⟨.earlyEnd, input.lastPosition⟩) :=
  current.bind earlyEnd

theorem moveOff (pass : Token → Bool) : (Parse.moveOff pass).EndsAs input (.ok ()) :=
  current.bind (pure ())

end EndsAs

def Forward (p : Parse α) : Prop := ∀ input cursor, cursor ≤ (p input cursor).cursor

namespace Forward

theorem bind {p : Parse α} {f : α → Parse β} (hp : p.Forward) (hf : ∀ a, (f a).Forward) :
    (p >>= f).Forward := by
  intro input cursor
  have first := hp input cursor
  cases hr : (p input cursor).result with
  | error d => rwa [Parse.bind_error hr]
  | ok a =>
    rw [bind_ok hr]
    exact first.trans (hf a input _)

theorem pure (a : α) : (Pure.pure a : Parse α).Forward := fun _ => Nat.le_refl

theorem fail (cause : Cause) : (Parse.fail cause : Parse α).Forward := fun _ => Nat.le_refl

theorem current : Parse.current.Forward := fun _ => Nat.le_refl

theorem nextPast (pass : Token → Bool) : (Parse.nextPast pass).Forward :=
  (IsLocal.nextPast pass).forward

theorem requireCurrent : Parse.requireCurrent.Forward := by
  refine current.bind fun token => ?_
  cases token with
  | some t => exact pure t
  | none => exact fail _

theorem moveOff (pass : Token → Bool) : (Parse.moveOff pass).Forward := by
  refine current.bind fun token => ?_
  split
  · exact (nextPast pass).bind fun _ => pure _
  · exact pure _

end Forward

end Parse

namespace Parser

variable {α : Type} {p : Parser}

def afterCalls (p : Parser) (calls : List Call) : Parser :=
  calls.foldl (fun p call => (p.answer call).parser) p

/-- The second parser is the first one, at most further on. -/
structure MovesTo (p q : Parser) : Prop where
  input : q.input = p.input
  depth : q.depth = p.depth
  cutShort : q.cutShort = p.cutShort
  forward : p.cursor ≤ q.cursor

/-- Levels that there is room for are entered before a call and left after it. -/
theorem within_of_le {call : Parser → Reply α} {levels : Nat}
    (h : p.depth + levels ≤ maxNesting) :
    p.within call levels =
      let reply := call { p with depth := p.depth + levels }
      ⟨reply.result, { reply.parser with depth := reply.parser.depth - levels }, reply.events⟩ := by
  induction levels generalizing p with
  | zero => rfl
  | succ levels ih =>
    rw [within, nested_of_lt (by omega), ih (by simp only; omega)]
    simp only [Reply.leave, Nat.sub_sub, Nat.add_assoc, Nat.add_comm 1]

/-- A call that there is no room for is not made. -/
theorem within_of_lt {call : Parser → Reply α} {levels : Nat} (some : 0 < levels)
    (h : maxNesting < p.depth + levels) : p.within call levels = p.run Parse.tooDeep := by
  induction levels generalizing p with
  | zero => exact absurd some (Nat.lt_irrefl 0)
  | succ levels ih =>
    rw [within]
    by_cases room : p.depth < maxNesting
    · rw [nested_of_lt room, ih (by omega) (by simp only; omega)]
      rfl
    · exact nested_of_le (Nat.le_of_not_lt room)

/-- A call that gives something was made inside all its levels. -/
theorem within_of_ok {call : Parser → Reply α} {levels : Nat} {a : α}
    (h : (p.within call levels).result = .ok a) :
    let reply := call { p with depth := p.depth + levels }
    p.within call levels =
      ⟨reply.result, { reply.parser with depth := reply.parser.depth - levels }, reply.events⟩ := by
  rcases Nat.eq_zero_or_pos levels with rfl | some
  · rfl
  · by_cases room : p.depth + levels ≤ maxNesting
    · exact within_of_le room
    · rw [within_of_lt some (Nat.lt_of_not_le room)] at h
      cases h

theorem run_movesTo {parse : Parse α} (h : parse.Forward) (p : Parser) :
    p.MovesTo (p.run parse).parser :=
  ⟨rfl, rfl, rfl, h p.input p.cursor⟩

/-- No call moves back or leaves the level of nesting that it was made in, faults included. -/
theorem answer_movesTo (call : Call) (hp : p.depth ≤ maxNesting) :
    p.MovesTo (p.answer call).parser := by
  induction call generalizing p with
  | advance => exact run_movesTo (.nextPast _) p
  | current => exact run_movesTo .current p
  | requireCurrent => exact run_movesTo .requireCurrent p
  | passComments | passLayout => exact run_movesTo (.moveOff _) p
  | earlyEnd => exact run_movesTo (.fail _) p
  | options => exact run_movesTo (fun _ => Nat.le_refl) p
  | statement =>
    rw [answer_statement]
    exact run_movesTo (Parse.statement_isLocal p.room).forward p
  | returned =>
    rw [answer_returned]
    exact run_movesTo (Parse.returned_isLocal p.room).forward p
  | definition kind =>
    rw [answer_definition]
    exact run_movesTo (Parse.definition_isLocal p.room kind).forward p
  | body =>
    rw [answer_body]
    exact run_movesTo (Parse.body_isLocal p.room).forward p
  | type =>
    rw [answer_type]
    exact run_movesTo (Parse.typeExpr_isLocal p.room).forward p
  | within levels call ih =>
    rw [answer]
    by_cases h : p.depth + levels ≤ maxNesting
    · obtain ⟨input, depth, cutShort, forward⟩ := @ih { p with depth := p.depth + levels } h
      rw [within_of_le h]
      exact ⟨input, Nat.sub_eq_of_eq_add depth, cutShort, forward⟩
    · rw [within_of_lt (by omega) (by omega)]
      exact run_movesTo (.fail _) p

theorem answer_of_lt {call : Call} (hp : p.depth ≤ maxNesting)
    (h : maxNesting < p.depth + call.levels) : p.answer call = p.run Parse.tooDeep := by
  induction call generalizing p with
  | within levels call ih =>
    rw [answer]
    rw [Call.levels] at h
    by_cases room : p.depth + levels ≤ maxNesting
    · rw [within_of_le room, ih room (by simp only; omega)]
      simp only [run, Nat.add_sub_cancel, Parse.tooDeep, Parse.fail]
    · exact within_of_lt (by omega) (by omega)
  | _ => exact absurd h (by simpa [Call.levels] using hp)

theorem result_of_endsAs {parse : Parse α} {result : Except Diagnostic α}
    (h : parse.EndsAs p.input result) (ended : p.isPastEnd) (f : α → Answer) :
    ((p.run parse).map f).result = result.map f :=
  congrArg (Except.map f) (h p.cursor ended).1

/-- Once the tokens are used up every call answers in the same way, whatever came before. -/
theorem result_of_isPastEnd {call : Call} (h : p.depth + call.levels < maxNesting)
    (ended : p.isPastEnd) : (p.answer call).result = call.answerPastEnd p.input := by
  induction call generalizing p with
  | advance => exact result_of_endsAs (.nextPast _) ended _
  | current => exact result_of_endsAs .current ended _
  | requireCurrent => exact result_of_endsAs .requireCurrent ended _
  | passComments | passLayout => exact result_of_endsAs (.moveOff _) ended _
  | earlyEnd => exact (Parse.EndsAs.earlyEnd p.cursor ended).1
  | options => rfl
  | statement =>
    rw [answer_statement]
    exact result_of_endsAs (.statement (Nat.sub_pos_of_lt h)) ended _
  | returned =>
    rw [answer_returned]
    exact result_of_endsAs (.returned (Nat.sub_pos_of_lt h)) ended _
  | definition kind =>
    rw [answer_definition]
    exact result_of_endsAs (.definition _ _ kind) ended _
  | body =>
    rw [answer_body]
    exact result_of_endsAs (.body (Nat.sub_pos_of_lt h)) ended _
  | type =>
    rw [answer_type]
    exact result_of_endsAs (.type (Nat.sub_pos_of_lt h)) ended _
  | within levels call ih =>
    rw [Call.levels] at h
    rw [answer, within_of_le (by omega)]
    exact @ih { p with depth := p.depth + levels } (by simp only; omega) ended

theorem MovesTo.trans {q r : Parser} (h : p.MovesTo q) (h' : q.MovesTo r) : p.MovesTo r where
  input := h'.input.trans h.input
  depth := h'.depth.trans h.depth
  cutShort := h'.cutShort.trans h.cutShort
  forward := h.forward.trans h'.forward

theorem afterCalls_movesTo (calls : List Call) (hp : p.depth ≤ maxNesting) :
    p.MovesTo (p.afterCalls calls) := by
  induction calls generalizing p with
  | nil => exact ⟨rfl, rfl, rfl, Nat.le_refl _⟩
  | cons call calls ih =>
    have first := answer_movesTo call hp
    exact first.trans (ih (first.depth.le.trans hp))

/-- Calls in any order, their faults included, leave a parser as it was, apart from a cursor that
moves forward only. Nested too deep a call is not made, and past the end nothing but the call itself
decides what it gives. -/
theorem answer_invariant (input : Input) (calls : List Call) (call : Call) :
    let p := (ofInput input).afterCalls calls
    let reply := p.answer call
    reply.parser.depth = 0 ∧ reply.parser.input = input ∧ reply.parser.cutShort = false ∧
      p.cursor ≤ reply.parser.cursor ∧
      (maxNesting < call.levels →
        reply = ⟨.error ⟨.nestingTooDeep maxNesting, p.position⟩, p, []⟩) ∧
      (p.isPastEnd → reply.parser.isPastEnd ∧
        (call.levels < maxNesting → reply.result = call.answerPastEnd input)) := by
  intro p reply
  have start : (ofInput input).MovesTo p := afterCalls_movesTo calls (Nat.zero_le _)
  have outermost : p.depth = 0 := start.depth
  have room : p.depth ≤ maxNesting := outermost.le.trans (Nat.zero_le _)
  have step : p.MovesTo reply.parser := answer_movesTo call room
  refine ⟨step.depth.trans outermost, step.input.trans start.input,
    step.cutShort.trans start.cutShort, step.forward, ?_, ?_⟩
  · intro deep
    exact answer_of_lt room (by omega)
  · intro ended
    constructor
    · rw [isPastEnd, step.input]
      exact Input.isPastEnd_of_le ended step.forward
    · intro shallow
      have same : p.input = input := start.input
      rw [← same]
      exact result_of_isPastEnd (by omega) ended

/-- A parser that has moved past its only token. -/
theorem answer_invariant_past_end :
    let p := (ofInput ⟨#[⟨.integer, some "1", "x", 3, 5, 6⟩], "x", .strict⟩).afterCalls
      [.requireCurrent, .within 2 .advance, .advance]
    p.isPastEnd ∧
      (p.answer (.within 255 .body)).result = .error ⟨.earlyEnd, ⟨"x", 3, 5⟩⟩ ∧
      p.answer (.within 200 (.within 57 .advance)) =
        ⟨.error ⟨.nestingTooDeep 256, p.position⟩, p, []⟩ := by
  intro p
  have ended : p.isPastEnd := by cbv
  have shallow := answer_invariant ⟨#[⟨.integer, some "1", "x", 3, 5, 6⟩], "x", .strict⟩
    [.requireCurrent, .within 2 .advance, .advance] (.within 255 .body)
  have deep := answer_invariant ⟨#[⟨.integer, some "1", "x", 3, 5, 6⟩], "x", .strict⟩
    [.requireCurrent, .within 2 .advance, .advance] (.within 200 (.within 57 .advance))
  exact ⟨ended, (shallow.2.2.2.2.2 ended).2 (by decide), deep.2.2.2.2.1 (by decide)⟩

end Parser

end DefLang
