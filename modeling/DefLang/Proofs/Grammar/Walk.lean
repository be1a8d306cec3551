import DefLang.Proofs.Grammar.Rejection

namespace DefLang

def Event.isArrival : Event → Bool
  | advanced _ _ => true
  | _ => false

def Event.arrivals (events : List Event) : List Event := events.filter Event.isArrival

namespace Input

variable {input : Input} {cursor : Nat}

theorem seek_le (pass : Token → Bool) (h : cursor ≤ input.tokens.size) :
    input.seek pass cursor ≤ input.tokens.size := by
  fun_induction input.seek pass cursor with
  | case1 _ hi _ ih => exact ih hi
  | case2 => exact h
  | case3 => exact h

theorem arrivals_passage (input : Input) (index : Nat) :
    Event.arrivals (input.passage index) = [input.arrival index] := by
  unfold passage
  split
  · split <;> rfl
  · rfl

theorem arrivals_flatMap_passage (input : Input) (indices : List Nat) :
    Event.arrivals (indices.flatMap input.passage) = indices.map input.arrival := by
  have each : (fun index => (input.passage index).filter Event.isArrival) =
      fun index => [input.arrival index] := funext input.arrivals_passage
  rw [Event.arrivals, List.filter_flatMap, each, ← List.map_eq_flatMap]

end Input

def Turn.Finishes {α : Type} (turn : Turn α) : Prop := ∃ items, turn = .finish items

namespace Outcome

variable {α β : Type}

/-- The tokens are used up, as the result says: those that it takes for that, or an early end. -/
def IsOver (closing : α → Prop) (o : Outcome α) : Prop :=
  match o.result with
  | .ok a => closing a
  | .error d => d.cause = .earlyEnd

/-- The cursor was moved over one token after the other, and past the last one only to find that the
tokens are used up. -/
structure Walks (closing : α → Prop) (input : Input) (cursor : Nat) (o : Outcome α) : Prop where
  moves : ∃ n, o.cursor = cursor + n ∧
    Event.arrivals o.events = (List.range' cursor n).map input.arrival
  past : o.IsOver closing → o.cursor = input.tokens.size + 1
  inside : ¬o.IsOver closing → o.cursor ≤ input.tokens.size

structure Rests (closing : α → Prop) (cursor : Nat) (o : Outcome α) : Prop where
  cursor : o.cursor = cursor
  quiet : Event.arrivals o.events = []
  closing : o.IsOver closing

variable {closing : α → Prop} {closing' : β → Prop} {input : Input} {cursor : Nat}

theorem Walks.cursor_le {o : Outcome α} (h : o.Walks closing input cursor) :
    o.cursor ≤ input.tokens.size + 1 := by
  by_cases ends : o.IsOver closing
  · exact (h.past ends).le
  · exact Nat.le_succ_of_le (h.inside ends)

theorem arrivals_after (events : List Event) (o : Outcome α) :
    Event.arrivals (o.after events).events = Event.arrivals events ++ Event.arrivals o.events :=
  List.filter_append events o.events

/-- One walk after another. -/
theorem Walks.after {o : Outcome α} {o' : Outcome β} (h : o.Walks closing input cursor)
    (h' : o'.Walks closing' input o.cursor) : (o'.after o.events).Walks closing' input cursor where
  moves := by
    obtain ⟨n, moved, told⟩ := h.moves
    obtain ⟨m, moved', told'⟩ := h'.moves
    refine ⟨n + m, moved'.trans (by omega), ?_⟩
    rw [arrivals_after, told, told', moved, ← List.map_append, List.range'_append_1]
  past := h'.past
  inside := h'.inside

theorem Walks.after_rest {o : Outcome α} {o' : Outcome β} (h : o.Walks closing input cursor)
    (ends : o.IsOver closing) (h' : o'.Rests closing' o.cursor) :
    (o'.after o.events).Walks closing' input cursor where
  moves := by
    obtain ⟨n, moved, told⟩ := h.moves
    refine ⟨n, h'.cursor.trans moved, ?_⟩
    rw [arrivals_after, told, h'.quiet, List.append_nil]
  past _ := h'.cursor.trans (h.past ends)
  inside goes := absurd h'.closing goes

end Outcome

namespace Parse

variable {α β : Type} {closing : α → Prop} {closing' : β → Prop}

/-- From within the tokens the cursor is moved token by token, and past the last one at most once,
when the result says that they are used up. -/
def Walks (closing : α → Prop) (p : Parse α) : Prop :=
  ∀ input cursor, cursor ≤ input.tokens.size → (p input cursor).Walks closing input cursor

/-- Where the tokens are used up the parser leaves it at that. -/
def Rests (closing : α → Prop) (p : Parse α) : Prop :=
  ∀ input cursor, (p input cursor).Rests closing cursor

def never : α → Prop := fun _ => False

theorem rests_earlyEnd : (fail .earlyEnd : Parse α).Rests closing := fun _ _ => ⟨rfl, rfl, rfl⟩

namespace Walks

theorem bind_at {p : Parse α} {f : α → Parse β} {input : Input} {cursor : Nat}
    (first : (p input cursor).Walks closing input cursor)
    (goes : ∀ a, (p input cursor).result = .ok a → ¬closing a →
      (p input cursor).cursor ≤ input.tokens.size →
        (f a input (p input cursor).cursor).Walks closing' input (p input cursor).cursor)
    (rests : ∀ a, (p input cursor).result = .ok a → closing a → (f a).Rests closing') :
    ((p >>= f) input cursor).Walks closing' input cursor := by
  cases hr : (p input cursor).result with
  | error d =>
    have same : (p input cursor).IsOver closing ↔
        (⟨.error d, (p input cursor).cursor, (p input cursor).events⟩ : Outcome β).IsOver
          closing' := by
      simp only [Outcome.IsOver, hr]
    rw [bind_error hr]
    exact ⟨first.moves, fun ends => first.past (same.2 ends),
      fun goes => first.inside (mt same.1 goes)⟩
  | ok a =>
    have ends : (p input cursor).IsOver closing ↔ closing a := by simp only [Outcome.IsOver, hr]
    rw [bind_ok hr]
    by_cases ha : closing a
    · exact first.after_rest (ends.2 ha) (rests a hr ha input _)
    · exact first.after (goes a hr ha (first.inside (mt ends.1 ha)))

theorem bind {p : Parse α} {f : α → Parse β} (hp : p.Walks closing)
    (goes : ∀ a, ¬closing a → (f a).Walks closing')
    (rests : ∀ a, closing a → (f a).Rests closing') :
    (p >>= f).Walks closing' := fun input cursor within =>
  bind_at (hp input cursor within) (fun a _ ha => goes a ha input _) fun a _ => rests a

/-- What does not use up the tokens can be followed by anything. -/
theorem andThen {p : Parse α} {f : α → Parse β} (hp : p.Walks never)
    (goes : ∀ a, (f a).Walks closing') : (p >>= f).Walks closing' :=
  hp.bind (fun a _ => goes a) fun _ => False.elim

theorem of_still {p : Parse α} (still : ∀ input cursor, (p input cursor).cursor = cursor ∧
    Event.arrivals (p input cursor).events = [] ∧ ¬(p input cursor).IsOver closing) :
    p.Walks closing := by
  intro input cursor within
  obtain ⟨moved, quiet, goes⟩ := still input cursor
  exact ⟨⟨0, moved, quiet⟩, fun ends => absurd ends goes, fun _ => moved.le.trans within⟩

theorem pure {a : α} (h : ¬closing a) : (Pure.pure a : Parse α).Walks closing :=
  of_still fun _ _ => ⟨rfl, rfl, h⟩

theorem fail {cause : Cause} (h : cause ≠ .earlyEnd) : (Parse.fail cause : Parse α).Walks closing :=
  of_still fun _ _ => ⟨rfl, rfl, h⟩

theorem tell {event : Event} (h : event.opensBody) : (Parse.tell event).Walks never := by
  have quiet : Event.arrivals [event] = [] := by
    cases event with
    | functionBody | moduleBody => rfl
    | _ => cases h
  exact of_still fun _ _ => ⟨rfl, quiet, id⟩

theorem peek : Parse.peek.Walks never := of_still fun _ _ => ⟨rfl, rfl, id⟩

theorem options : Parse.options.Walks never := of_still fun _ _ => ⟨rfl, rfl, id⟩

theorem map {p : Parse α} (f : α → β) (hp : p.Walks closing)
    (same : ∀ a, closing a ↔ closing' (f a)) :
    (f <$> p).Walks closing' := by
  rw [map_eq_pure_bind]
  exact hp.bind (fun a ha => pure (mt (same a).2 ha))
    fun a ha _ _ => ⟨rfl, rfl, (same a).1 ha⟩

/-- Passing over tokens is moving to each of them. -/
theorem nextPast (pass : Token → Bool) : (Parse.nextPast pass).Walks (· = none) := by
  intro input cursor within
  obtain ⟨n, hn⟩ := Nat.exists_eq_add_of_le (input.le_seek pass cursor)
  have high := Input.seek_le pass within
  have ends : (Parse.nextPast pass input cursor).IsOver (· = none) ↔
      input.seek pass cursor = input.tokens.size := by
    simp only [Outcome.IsOver, Parse.nextPast, Array.getElem?_eq_none_iff]
    omega
  constructor
  · refine ⟨n + 1, congrArg (· + 1) hn, ?_⟩
    simp only [Parse.nextPast, hn, Nat.add_sub_cancel_left]
    rw [List.range'_1_concat, List.map_append, ← input.arrivals_flatMap_passage]
    exact List.filter_append ..
  · intro h
    exact congrArg (· + 1) (ends.1 h)
  · intro goes
    have := mt ends.2 goes
    show input.seek pass cursor + 1 ≤ input.tokens.size
    omega

theorem requirePast (pass : Token → Bool) : (Parse.requirePast pass).Walks never := by
  refine (nextPast pass).bind (fun token goes => ?_) fun token ends => ?_
  · cases token with
    | some t => exact pure id
    | none => exact absurd rfl goes
  · rw [ends]
    exact rests_earlyEnd

theorem unless_fail {c : Prop} [Decidable c] {cause : Cause} (h : cause ≠ .earlyEnd) :
    (unless c do Parse.fail cause : Parse PUnit).Walks never := by
  split
  · exact pure id
  · exact fail h

theorem ite_fail {c : Prop} [Decidable c] {cause : Cause} (h : cause ≠ .earlyEnd)
    (f : β → Parse α) {p : Parse α} (hp : p.Walks closing) :
    (if c then p else Parse.fail cause >>= f).Walks closing := by
  split
  · exact hp
  · exact fail h

theorem headerEnd : Parse.headerEnd.Walks never :=
  (requirePast _).andThen fun _ => unless_fail (by simp)

theorem turnsWithin {turn : Parse (Turn α)} (ht : turn.Walks never) (n : Nat) :
    (Parse.turnsWithin turn n).Walks never := by
  induction n with
  | zero => exact fail (by simp)
  | succ n ih =>
    refine ht.andThen fun t => ?_
    cases t with
    | finish items => exact pure id
    | again item => exact ih.map _ fun _ => Iff.rfl

theorem repeated {turn : Parse (Turn α)} (ha : turn.Advances) (ht : turn.Walks never) :
    (Parse.repeated turn).Walks never := by
  intro input cursor within
  rw [repeated_eq_turnsWithin ha (Nat.lt_succ_self _)]
  exact turnsWithin ht _ input cursor within

section Types

variable {type : Parse TypeExpr} (ht : type.Walks never)

include ht

theorem field : (Parse.field type).Walks never := by
  refine (requirePast _).andThen fun t => ?_
  cases t.kind with
  | curlyClose => exact pure id
  | declaration => exact ht.andThen fun _ => pure id
  | _ => exact fail (by simp)

/-- The arrow that was seen is there to be moved to. -/
theorem arrow (argument : TypeExpr) : (Parse.arrow type argument).Walks never := by
  intro input cursor within
  refine bind_at (peek input cursor within) ?_ fun _ _ => False.elim
  intro token seen _ _
  obtain rfl := Except.ok.inj seen
  split
  · next isArrow =>
    refine bind_at (nextPast _ input cursor within) ?_ ?_
    · intro _ _ _ inside
      exact (ht.andThen fun _ => pure id) input _ inside
    · intro next moved absent
      have moved : (Parse.next input cursor).result = .ok next := moved
      rw [next_eq] at moved
      have nothing : input.tokens[cursor]? = none := (Except.ok.inj moved).trans absent
      rw [Input.peek?, nothing] at isArrow
      cases isArrow
  · exact pure id input cursor within

end Types

theorem typeExpr (room : Nat) : (Parse.typeExpr room).Walks never := by
  induction room with
  | zero => exact fail (by simp)
  | succ room ih =>
    refine (requirePast _).andThen fun t => ?_
    cases t.kind with
    | identifier => exact arrow ih _
    | curlyOpen => exact (repeated (field_advances room) (field ih)).andThen fun _ => arrow ih _
    | _ => exact fail (by simp)

section Statements

variable {statement : Parse (Option Node)} (hs : statement.Walks (· = none))

include hs

/-- Where the input may not end. -/
theorem needed (f : Node → α) :
    (statement >>= fun
      | some node => Pure.pure (f node)
      | none => Parse.fail .earlyEnd : Parse α).Walks never := by
  refine hs.bind (fun node goes => ?_) fun node ends => ?_
  · cases node with
    | some node => exact pure id
    | none => exact absurd rfl goes
  · rw [ends]
    exact rests_earlyEnd

theorem body (ha : (Parse.bodyStatement statement).Advances) :
    (Parse.body statement).Walks never :=
  repeated ha (needed hs fun node => if node.closes then Turn.finish [node] else Turn.again node)

end Statements

section Definitions

variable {statement : Parse (Option Node)} {type : Parse TypeExpr}
  (hb : (Parse.body statement).Walks never) (ht : type.Walks never)

include hb

/-- The body after a header. -/
theorem bodyAfter {event : Event} (he : event.opensBody) (f : List Node → α) :
    (do
      Parse.tell event
      return f (← Parse.body statement) : Parse α).Walks never :=
  (tell he).andThen fun _ => hb.andThen fun _ => pure id

include ht

theorem definition (kind : Option String) :
    (Parse.definition statement type kind).Walks never := by
  refine (requirePast _).andThen fun t => ite_fail (by simp) _ (peek.andThen fun next => ?_)
  split
  · exact ht.andThen fun _ => headerEnd.andThen fun _ => bodyAfter hb rfl _
  · refine headerEnd.andThen fun _ => ?_
    split
    · exact bodyAfter hb rfl _
    · exact fail (by simp)

theorem statementAt (hs : statement.Walks (· = none)) (t : Token) :
    (Parse.statementAt statement type t).Walks never := by
  unfold Parse.statementAt
  cases t.kind with
  | atom | integer | float | string | definitionEnd => exact pure id
  | functionReturn => exact needed hs Node.functionReturn
  | definition => exact definition hb ht t.value
  | _ => exact fail (by simp)

end Definitions

theorem statement (room : Nat) : (Parse.statement room).Walks (· = none) := by
  induction room with
  | zero => exact fail (by simp)
  | succ room ih =>
    have hb := body ih (bodyStatement_advances room)
    refine options.andThen fun o => (nextPast _).bind (fun token goes => ?_) fun token ends => ?_
    · cases token with
      | some t => exact (statementAt hb (typeExpr room) ih t).map some fun _ => by simp [never]
      | none => exact absurd rfl goes
    · rw [ends]
      exact fun _ _ => ⟨rfl, rfl, rfl⟩

theorem programStatement : Parse.programStatement.Walks Turn.Finishes := by
  refine (statement maxNesting).bind (fun node goes => ?_) fun node ends => ?_
  · cases node with
    | some node => exact pure (by simp [Turn.Finishes])
    | none => exact absurd rfl goes
  · rw [ends]
    exact fun _ _ => ⟨rfl, rfl, [], rfl⟩

end Walks

end Parse

namespace Repetition

variable {α : Type}

/-- A repetition is over because a turn ends it, and not because one did not move on. -/
def EndsItself (r : Repetition α) : Prop := ∀ item, r.last.result ≠ .ok (.again item)

theorem endsItself_run {turn : Parse (Turn α)} (ha : turn.Advances) (input : Input) (cursor : Nat) :
    (run turn input cursor).EndsItself := by
  intro item
  induction cursor using ha.induction input with
  | again cursor _ hr ih => rwa [last_again ha hr]
  | stop cursor hs =>
    rw [run_stop hs]
    exact hs item

end Repetition

theorem Descent.RunsAt.endsItself {α : Type} {turn : Descent (Turn α)} {parse : Parse (Turn α)}
    {p : Parser} (h : turn.RunsAt p.depth parse) (ha : parse.Advances) :
    (turn.turns p).1.EndsItself := by
  rw [h.turns p rfl]
  exact Repetition.endsItself_run ha p.input p.cursor

namespace Input

open Repetition (run endsItself_run)
open Parse (programStatement programStatement_advances)

variable {input : Input}

/-- From statement to statement, each of them from where the last one left the cursor. -/
theorem run_walks {cursor : Nat} (within : cursor ≤ input.tokens.size) :
    (run programStatement input cursor).outcome.Walks Turn.Finishes input cursor := by
  induction cursor using programStatement_advances.induction input with
  | again cursor node hr ih =>
    have first := Parse.Walks.programStatement input cursor within
    have goes : ¬(programStatement input cursor).IsOver Turn.Finishes := by
      simp [Outcome.IsOver, Turn.Finishes, hr]
    rw [Repetition.outcome_again programStatement_advances hr]
    exact first.after (ih (first.inside goes))
  | stop cursor hs =>
    rw [Repetition.outcome_stop hs]
    exact Parse.Walks.programStatement input cursor within

/-- What is told of a program once its statements are read. -/
theorem exists_program_events (input : Input) :
    ∃ more, input.program.events = (run programStatement input 0).events ++ more ∧
      Event.arrivals more = [] ∧
      (input.program.parser.cutShort = true → ∃ d count, input.stop.result = .error d ∧
        more = [.stoppedEarly input.file d, .parsed count input.file]) := by
  rw [program_eq, stop]
  dsimp only
  cases (run programStatement input 0).last.result with
  | ok turn => exact ⟨_, rfl, rfl, by simp⟩
  | error d =>
    dsimp only
    split
    · exact ⟨[], (List.append_nil _).symm, rfl, by simp⟩
    · exact ⟨_, rfl, rfl, fun _ => ⟨d, _, rfl, rfl⟩⟩

/-- A program is cut short at an early end, or where it nests too deep. -/
theorem isTooDeep_iff_of_cutShort {d : Diagnostic} (h : input.stop.result = .error d)
    (cut : ¬input.options.IsFatal d) :
    (∃ limit, d.cause = .nestingTooDeep limit) ↔ d.cause ≠ .earlyEnd := by
  have lands := input.stop_lands
  unfold Outcome.Lands at lands
  rw [h] at lands
  obtain ⟨-, s, fits, -⟩ := lands
  have ungrammatical := fun hg => cut (.inl hg)
  cases hc : d.cause with
  | invalidToken | readFailure =>
    rw [hc] at fits
    cases fits
  | earlyEnd | nestingTooDeep => simp
  | _ =>
    rw [hc] at ungrammatical
    exact absurd rfl ungrammatical

/-- A program that was read as a whole moves the cursor past the last token. -/
theorem stop_cursor_of_complete {tree : Node} (accepted : input.program.result = .ok tree)
    (complete : input.program.parser.cutShort = false) :
    input.stop.cursor = input.tokens.size + 1 := by
  have ends := endsItself_run programStatement_advances input 0
  obtain ⟨turn, stop, -⟩ | ⟨d, -, ⟨-, failed, -⟩ | ⟨-, -, cut⟩⟩ := input.program_cases
  · have result : (run programStatement input 0).outcome.result = .ok turn := stop
    have closing : (run programStatement input 0).outcome.IsOver Turn.Finishes := by
      cases turn with
      | again node => exact absurd stop (ends node)
      | finish nodes =>
        simp only [Outcome.IsOver, result]
        exact ⟨nodes, rfl⟩
    exact (input.run_walks (Nat.zero_le _)).past closing
  · cases accepted.symm.trans failed
  · cases complete.symm.trans cut

/-- A program that was cut short leaves the cursor before the end only for want of room. -/
theorem stop_cursor_lt_iff {d : Diagnostic} (stop : input.stop.result = .error d)
    (kept : ¬input.options.IsFatal d) :
    input.stop.cursor < input.tokens.size + 1 ↔ ∃ limit, d.cause = .nestingTooDeep limit := by
  have walks := input.run_walks (Nat.zero_le _)
  have result : (run programStatement input 0).outcome.result = .error d := stop
  have closing : (run programStatement input 0).outcome.IsOver Turn.Finishes ↔
      d.cause = .earlyEnd := by
    simp only [Outcome.IsOver, result]
  rw [isTooDeep_iff_of_cutShort stop kept, ne_eq, ← closing]
  constructor
  · intro before past
    exact absurd (walks.past past) (Nat.ne_of_lt before)
  · intro inside
    exact Nat.lt_succ_of_le (walks.inside inside)

/-- The cursor is moved to the token at index 0, then to the one at index 1 and so on, and at most
once past the last one. If a whole program was read that is where it ends; if it was cut short, it is
left before the end only for want of room. A cursor counts its moves, and no repetition goes round
in place. -/
theorem program_walks_once (input : Input) :
    let reply := input.program
    let length := input.tokens.size
    Event.arrivals reply.events =
        (List.range reply.parser.cursor).map (fun index => .advanced index input.tokens[index]?) ∧
      reply.parser.cursor ≤ length + 1 ∧
      ((∃ tree, reply.result = .ok tree) → reply.parser.cutShort = false →
        reply.parser.cursor = length + 1) ∧
      (reply.parser.cutShort = true → ∃ told d count,
        reply.events = told ++ [.stoppedEarly input.file d, .parsed count input.file] ∧
          (reply.parser.cursor < length + 1 ↔ ∃ limit, d.cause = .nestingTooDeep limit)) ∧
      (Descent.turns (Parse.programTurn Descent.statement) (.ofInput input)).1.EndsItself ∧
      ∀ (p : Parser) (n : Nat), maxNesting < p.depth + n →
        (Descent.turns (Parse.bodyStatement (Descent.statementWithin n)) p).1.EndsItself ∧
          (Descent.turns (Parse.field (Descent.typeWithin n)) p).1.EndsItself := by
  intro reply length
  have walks := input.run_walks (Nat.zero_le length)
  have here : reply.parser.cursor = input.stop.cursor := input.program_cursor
  obtain ⟨more, told, quiet, early⟩ := input.exists_program_events
  refine ⟨?_, here ▸ walks.cursor_le, ?_, ?_, ?_, fun p n bound => ⟨?_, ?_⟩⟩
  · obtain ⟨n, moved, arrivals⟩ := walks.moves
    have count : input.stop.cursor = n := moved.trans (Nat.zero_add n)
    have split : Event.arrivals reply.events =
        Event.arrivals (run programStatement input 0).outcome.events ++ Event.arrivals more := by
      rw [told]
      exact List.filter_append ..
    rw [split, quiet, arrivals, List.append_nil, here, count, List.range_eq_range']
    rfl
  · rintro ⟨tree, accepted⟩ complete
    exact here.trans (stop_cursor_of_complete accepted complete)
  · intro cut
    obtain ⟨d, count, stop, records⟩ := early cut
    obtain ⟨e, stop', kept⟩ := program_cutShort_iff.1 cut
    obtain rfl : d = e := Except.error.inj (stop.symm.trans stop')
    exact ⟨_, d, count, records ▸ told, here ▸ stop_cursor_lt_iff stop kept⟩
  · exact Descent.programTurn_runsAt.endsItself programStatement_advances
  · exact (Descent.statementWithin_runsAt bound).bodyStatement.endsItself
      (Parse.bodyStatement_advances _)
  · exact (Descent.typeWithin_runsAt bound).field.endsItself (Parse.field_advances _)

/-- A return without a value, after a statement and with a comment to come. -/
theorem program_walks_once_to_early_end :
    let atom : Token := ⟨.atom, some ":a", "x", 1, 1, 3⟩
    let returned : Token := ⟨.functionReturn, none, "x", 1, 4, 7⟩
    let comment : Token := ⟨.comment, some "#", "x", 1, 8, 9⟩
    let input : Input := ⟨#[atom, returned, comment], "x", .lenient⟩
    input.program.parser.cutShort = true ∧
      Event.arrivals input.program.events =
        [.advanced 0 (some atom), .advanced 1 (some returned), .advanced 2 (some comment),
          .advanced 3 none] ∧
      (∃ told d count,
        input.program.events = told ++ [.stoppedEarly "x" d, .parsed count "x"] ∧
          (input.program.parser.cursor < 4 ↔ ∃ limit, d.cause = .nestingTooDeep limit)) ∧
      (Descent.turns (Parse.bodyStatement Descent.statement) (.ofInput input)).1.EndsItself := by
  intro atom returned comment input
  have cut : input.program.parser.cutShort = true := by cbv
  have cursor : input.program.parser.cursor = 4 := by cbv
  obtain ⟨arrivals, -, -, early, -, ends⟩ := program_walks_once input
  have body := (ends (.ofInput input) (maxNesting + 1) (by decide)).1
  exact ⟨cut, arrivals.trans (by rw [cursor]; rfl), early cut, body⟩

end Input

end DefLang
