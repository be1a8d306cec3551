import DefLang.Proofs.Grammar.Programs

namespace DefLang

namespace Event

def skipped? : Event → Option (Nat × Token)
  | skipped index t => some (index, t)
  | _ => none

def firstSkipped? (events : List Event) : Option (Nat × Token) := events.findSome? skipped?

theorem firstSkipped?_append (events more : List Event) :
    firstSkipped? (events ++ more) = (firstSkipped? events).or (firstSkipped? more) :=
  List.findSome?_append

end Event

open Event (firstSkipped?)

def Input.under (input : Input) (unknownTokens : UnknownTokens) : Input :=
  { input with options := { input.options with unknownTokens } }

def Token.unexpected (t : Token) : Diagnostic := ⟨.unexpectedToken t.mention, t.position⟩

/-- Where the second outcome comes without skipping a token, the first one is the same. Otherwise
it is a fault at the first token that is skipped. -/
inductive Outcome.Rejects {α : Type} (tokens : Array Token) (o o' : Outcome α) : Prop
  | same (result : o'.result = o.result) (cursor : o'.cursor = o.cursor)
    (none : firstSkipped? o'.events = none)
    (expected : ∀ text position, o.result ≠ .error ⟨.unexpectedToken text, position⟩)
  | unknown {index : Nat} {t : Token} (token : tokens[index]? = some t)
    (result : o.result = .error t.unexpected) (cursor : o.cursor = index + 1)
    (first : firstSkipped? o'.events = some (index, t))

def Parse.Rejects {α : Type} (p q : Parse α) : Prop :=
  ∀ (input : Input) (cursor : Nat),
    (p (input.under .reject) cursor).Rejects input.tokens (q (input.under .skip) cursor)

namespace Outcome.Rejects

variable {α β : Type} {tokens : Array Token}

theorem after {o o' : Outcome α} {events events' : List Event}
    (none : firstSkipped? events' = none) (h : o.Rejects tokens o') :
    (o.after events).Rejects tokens (o'.after events') := by
  have first : firstSkipped? (o'.after events').events = firstSkipped? o'.events := by
    simp [Outcome.after, Event.firstSkipped?_append, none]
  cases h with
  | same result cursor none expected => exact .same result cursor (first.trans none) expected
  | unknown token result cursor found => exact .unknown token result cursor (first.trans found)

theorem bind {p q : Parse α} {f g : α → Parse β} {input input' : Input} {cursor : Nat}
    (hp : (p input cursor).Rejects tokens (q input' cursor))
    (hf : ∀ a, (p input cursor).result = .ok a →
      (f a input (p input cursor).cursor).Rejects tokens (g a input' (p input cursor).cursor)) :
    ((p >>= f) input cursor).Rejects tokens ((q >>= g) input' cursor) := by
  cases hp with
  | same result moved none expected =>
    cases hr : (p input cursor).result with
    | error d =>
      rw [Parse.bind_error hr, Parse.bind_error (result.trans hr)]
      rw [hr] at expected
      refine .same rfl moved none ?_
      intro text position h
      cases h
      exact expected text position rfl
    | ok a =>
      rw [Parse.bind_ok hr, Parse.bind_ok (result.trans hr), moved]
      exact (hf a hr).after none
  | unknown token result moved first =>
    rw [Parse.bind_error result]
    refine .unknown token rfl moved ?_
    -- what comes after the first skipped token is not looked at
    cases hr : (q input' cursor).result with
    | error d => rwa [Parse.bind_error hr]
    | ok a =>
      rw [Parse.bind_ok hr]
      simp [Outcome.after, Event.firstSkipped?_append, first]

end Outcome.Rejects

namespace Input

variable {input : Input} {index : Nat} {t : Token}

/-- From token to token, as long as they are passed over. -/
theorem pass_induction (input : Input) (pass : Token → Bool) {motive : Nat → Prop}
    (passed : ∀ index t, input.tokens[index]? = some t → pass t → motive (index + 1) → motive index)
    (stopped : ∀ index, (∀ t, input.tokens[index]? = some t → pass t = false) → motive index)
    (index : Nat) : motive index := by
  fun_induction input.seek pass index with
  | case1 index hi hp ih => exact passed index _ (Array.getElem?_eq_getElem hi) hp ih
  | case2 index hi hp =>
    apply stopped
    intro t ht
    obtain rfl := Option.some.inj ((Array.getElem?_eq_getElem hi).symm.trans ht)
    simpa using hp
  | case3 index hi =>
    apply stopped
    intro t ht
    cases (Array.getElem?_eq_none (Nat.le_of_not_lt hi)).symm.trans ht

theorem passes_under_reject (input : Input) (t : Token) :
    (input.under .reject).options.passes t = t.isLayout := by
  simp [under, Options.passes]

theorem passes_under_skip (input : Input) (t : Token) :
    (input.under .skip).options.passes t = (t.isLayout || !t.kind.beginsStatement) := by
  simp [under, Options.passes]

theorem firstSkipped?_passage_of_isLayout (ht : input.tokens[index]? = some t)
    (hl : t.isLayout) : firstSkipped? (input.passage index) = none := by
  rw [passage, ht]
  simp only [hl, if_true]
  rfl

theorem firstSkipped?_passage (ht : input.tokens[index]? = some t) (hl : t.isLayout = false) :
    firstSkipped? (input.passage index) = some (index, t) := by
  rw [passage, ht]
  simp only [hl]
  rfl

end Input

namespace Parse.Rejects

variable {α β : Type}

theorem bind {p q : Parse α} {f g : α → Parse β} (hp : p.Rejects q)
    (hf : ∀ a, (f a).Rejects (g a)) : (p >>= f).Rejects (q >>= g) :=
  fun input cursor => (hp input cursor).bind fun a _ => hf a input _

theorem fail {cause : Cause} (h : ∀ text, cause ≠ .unexpectedToken text) :
    (Parse.fail cause : Parse α).Rejects (Parse.fail cause) := by
  intro input cursor
  refine .same rfl rfl rfl ?_
  intro text position hr
  cases hr
  exact h text rfl

/-- Layout goes without mention. -/
theorem nextPast {pass : Token → Bool} (hp : ∀ t, pass t → t.isLayout) :
    (Parse.nextPast pass).Rejects (Parse.nextPast pass) := by
  intro input cursor
  induction cursor using input.pass_induction pass with
  | passed cursor t ht passes ih =>
    rw [@nextPast_of_pass (input.under .reject) _ _ _ ht passes,
      @nextPast_of_pass (input.under .skip) _ _ _ ht passes]
    exact ih.after (Input.firstSkipped?_passage_of_isLayout ht (hp t passes))
  | stopped cursor h =>
    rw [@nextPast_of_stop (input.under .reject) _ _ h, @nextPast_of_stop (input.under .skip) _ _ h]
    exact .same rfl rfl rfl nofun

theorem repeated {turn turn' : Parse (Turn α)} (ha : turn.Advances) (ha' : turn'.Advances)
    (ht : ∀ n, (turnsWithin turn n).Rejects (turnsWithin turn' n)) :
    (Parse.repeated turn).Rejects (Parse.repeated turn') := by
  intro input cursor
  have enough (unknown : UnknownTokens) :
      (input.under unknown).tokens.size - cursor < input.tokens.size + 1 :=
    Nat.lt_succ_of_le (Nat.sub_le _ _)
  rw [repeated_eq_turnsWithin ha (enough .reject), repeated_eq_turnsWithin ha' (enough .skip)]
  exact ht _ input cursor

theorem congruence : Congruence fun _ _ p q => Rejects p q where
  weaken _ _ hp := hp
  pure a after input cursor := .same rfl rfl rfl nofun
  bind := bind
  fail _ _ hu := fail hu
  tell {event} _ he _ _ := by
    cases event with
    | functionBody | moduleBody => exact .same rfl rfl rfl nofun
    | _ => cases he
  peek _ _ := .same rfl rfl rfl nofun
  nextPast := nextPast
  repeated := repeated

end Parse.Rejects

namespace Parse

theorem typeExpr_rejects (room : Nat) : (typeExpr room).Rejects (typeExpr room) := by
  induction room with
  | zero => exact Rejects.fail nofun
  | succ room ih => exact Rejects.congruence.typeExpr_succ ih

variable {α : Type} {f : Option Token → Parse α}

/-- A token that begins no statement is rejected right where it is skipped. -/
theorem Rejects.opened_of_unknown {input : Input} {cursor : Nat} {t : Token}
    (ht : input.tokens[cursor]? = some t) (layout : t.isLayout = false)
    (unknown : t.kind.beginsStatement = false)
    (hf : f (some t) = Parse.fail (.unexpectedToken t.mention)) :
    ((opener >>= f) (input.under .reject) cursor).Rejects input.tokens
      ((opener >>= f) (input.under .skip) cursor) := by
  have stops : ∀ u, some t = some u → (input.under .reject).options.passes u = false := by
    intro u hu
    cases hu
    rw [Input.passes_under_reject, layout]
  have passes : (input.under .skip).options.passes t := by
    simp [Input.passes_under_skip, unknown]
  have here : (input.under .reject).position (cursor + 1) = t.position := by
    simp [Input.position, Input.current?, Input.under, ht]
  have told : firstSkipped? ((input.under .skip).passage cursor) = some (cursor, t) :=
    Input.firstSkipped?_passage ht layout
  rw [opened_of_stop (input.under .reject) ht stops, hf,
    opened_of_pass (input.under .skip) ht passes]
  refine .unknown ht ?_ rfl ?_
  · rw [Token.unexpected, ← here]
    rfl
  · simp [Outcome.after, Event.firstSkipped?_append, told]

theorem Rejects.opened
    (hf : ∀ next, (∀ t, next = some t → t.kind.beginsStatement) → (f next).Rejects (f next))
    (hu : ∀ t : Token, t.kind.beginsStatement = false →
      f (some t) = Parse.fail (.unexpectedToken t.mention)) :
    (opener >>= f).Rejects (opener >>= f) := by
  intro input cursor
  induction cursor using input.pass_induction Token.isLayout with
  | passed cursor t ht layout ih =>
    have passes (unknown : UnknownTokens) : (input.under unknown).options.passes t := by
      simp [Options.passes, layout]
    rw [opened_of_pass (input.under .reject) ht (passes .reject),
      opened_of_pass (input.under .skip) ht (passes .skip)]
    exact ih.after (Input.firstSkipped?_passage_of_isLayout ht layout)
  | stopped cursor h =>
    cases ht : input.tokens[cursor]? with
    | none =>
      have absent {P : Token → Prop} (u : Token) (hu : none = some u) : P u := by cases hu
      rw [opened_of_stop (input.under .reject) ht absent,
        opened_of_stop (input.under .skip) ht absent]
      exact (hf none absent input _).after rfl
    | some t =>
      cases hb : t.kind.beginsStatement with
      | false => exact opened_of_unknown ht (h t ht) hb (hu t hb)
      | true =>
        have stops (unknown : UnknownTokens) :
            ∀ u, some t = some u → (input.under unknown).options.passes u = false := by
          intro u hu
          cases hu
          simp [Options.passes, h t ht, hb]
        have begins : ∀ u, some t = some u → u.kind.beginsStatement := by
          intro u hu
          cases hu
          exact hb
        rw [opened_of_stop (input.under .reject) ht (stops .reject),
          opened_of_stop (input.under .skip) ht (stops .skip)]
        exact (hf _ begins input _).after rfl

theorem statement_rejects (room : Nat) : (statement room).Rejects (statement room) := by
  induction room with
  | zero => exact Rejects.fail nofun
  | succ room ih =>
    rw [statement_succ]
    apply Rejects.opened
    · intro next begins
      exact Rejects.congruence.statementFrom (typeExpr_rejects room) ih next
        fun t ht unknown => absurd (begins t ht) unknown
    · intro t unknown
      exact statementFrom_of_unknown room unknown

theorem programStatement_rejects : programStatement.Rejects programStatement := by
  rw [programStatement_eq]
  exact Rejects.congruence.turnFrom (s := .anywhere) (statement_rejects maxNesting)

end Parse

namespace Repetition

variable {α : Type}

def outcome (r : Repetition α) : Outcome (Turn α) := ⟨r.last.result, r.last.cursor, r.events⟩

variable {turn : Parse (Turn α)} {input : Input} {cursor : Nat}

theorem outcome_again (ha : turn.Advances) {item : α}
    (h : (turn input cursor).result = .ok (.again item)) :
    (run turn input cursor).outcome =
      (run turn input (turn input cursor).cursor).outcome.after (turn input cursor).events := by
  rw [outcome, last_again ha h, events_again ha h]
  rfl

theorem outcome_stop (h : ∀ item, (turn input cursor).result ≠ .ok (.again item)) :
    (run turn input cursor).outcome = turn input cursor := by
  simp [outcome, run_stop h, events, turns]

/-- The first turn is told of first. -/
theorem exists_events_append (ha : turn.Advances) (input : Input) (cursor : Nat) :
    ∃ more, (run turn input cursor).events = (turn input cursor).events ++ more := by
  by_cases h : ∃ item, (turn input cursor).result = .ok (.again item)
  · obtain ⟨item, hr⟩ := h
    exact ⟨_, events_again ha hr⟩
  · have hs : ∀ item, (turn input cursor).result ≠ .ok (.again item) :=
      fun item hr => h ⟨item, hr⟩
    refine ⟨[], ?_⟩
    simp [run_stop hs, events, turns]

theorem firstSkipped?_events (ha : turn.Advances) {found : Nat × Token}
    (h : firstSkipped? (turn input cursor).events = some found) :
    firstSkipped? (run turn input cursor).events = some found := by
  obtain ⟨more, he⟩ := exists_events_append ha input cursor
  rw [he, Event.firstSkipped?_append, h, Option.some_or]

theorem run_rejects (ha : turn.Advances) (ht : turn.Rejects turn) (input : Input) (cursor : Nat) :
    (run turn (input.under .reject) cursor).outcome.Rejects input.tokens
      (run turn (input.under .skip) cursor).outcome := by
  induction cursor using ha.induction (input.under .reject) with
  | again cursor item hr ih =>
    cases ht input cursor with
    | unknown token result moved first =>
      rw [result] at hr
      cases hr
    | same result moved none expected =>
      rw [outcome_again ha hr, outcome_again ha (result.trans hr), moved]
      exact ih.after none
  | stop cursor hs =>
    rw [outcome_stop hs]
    cases ht input cursor with
    | unknown token result moved first =>
      exact .unknown token result moved (firstSkipped?_events ha first)
    | same result moved none expected =>
      have hs' : ∀ item, (turn (input.under .skip) cursor).result ≠ .ok (.again item) := by
        rwa [result]
      rw [outcome_stop hs']
      exact .same result moved none expected

/-- Turn by turn, the same items come unless a token is skipped. -/
theorem items_under (ha : turn.Advances) (ht : turn.Rejects turn) (input : Input) (cursor : Nat)
    (h : firstSkipped? (run turn (input.under .skip) cursor).events = none) :
    (run turn (input.under .skip) cursor).items =
      (run turn (input.under .reject) cursor).items := by
  induction cursor using ha.induction (input.under .reject) with
  | again cursor item hr ih =>
    cases ht input cursor with
    | unknown token result moved first =>
      rw [result] at hr
      cases hr
    | same result moved none expected =>
      have hr' := result.trans hr
      rw [events_again ha hr', Event.firstSkipped?_append, none, Option.none_or, moved] at h
      rw [items_again ha hr, items_again ha hr', moved, ih h]
  | stop cursor hs =>
    cases ht input cursor with
    | unknown token result moved first =>
      rw [firstSkipped?_events ha first] at h
      cases h
    | same result moved none expected =>
      exact (stop_congr hs result).2.2

end Repetition

namespace Input

theorem firstSkipped?_program (input : Input) :
    firstSkipped? input.program.events =
      firstSkipped? (Repetition.run Parse.programStatement input 0).events := by
  have quiet (events more : List Event) (h : firstSkipped? more = none) :
      firstSkipped? (events ++ more) = firstSkipped? events := by
    rw [Event.firstSkipped?_append, h, Option.or_none]
  rw [program_eq]
  dsimp only
  split
  · exact quiet _ _ rfl
  · split
    · rfl
    · exact quiet _ _ rfl

def programOutcome (input : Input) : Outcome Node :=
  ⟨input.program.result, input.program.parser.cursor, input.program.events⟩

theorem program_rejects (input : Input) :
    (input.under .reject).programOutcome.Rejects input.tokens (input.under .skip).programOutcome ∧
      (firstSkipped? (input.under .skip).program.events = none →
        (input.under .skip).program.parser.cutShort =
          (input.under .reject).program.parser.cutShort) := by
  have ha := Parse.programStatement_advances
  have ht := Parse.programStatement_rejects
  have first := (input.under .skip).firstSkipped?_program
  cases Repetition.run_rejects ha ht input 0 with
  | unknown token result cursor found =>
    have found' := first.trans found
    refine ⟨.unknown token (program_error_iff.2 ⟨result, .inl rfl⟩) ?_ found', ?_⟩
    · exact (program_cursor _).trans cursor
    · rw [found']
      nofun
  | same result cursor none expected =>
    have statements := Repetition.items_under ha ht input 0 none
    have stop : (input.under .skip).stop.result = (input.under .reject).stop.result := result
    refine ⟨.same (result_congr stop rfl statements) ?_ (first.trans none) ?_,
      fun _ => cutShort_congr stop rfl⟩
    · exact (program_cursor _).trans (cursor.trans (program_cursor _).symm)
    · intro text position h
      exact expected text position (program_error_iff.1 h).1

/-- Rejecting unknown tokens stops at the first one that would be skipped. Where none would, it
makes no difference. -/
theorem program_rejects_first_skipped (tokens : Array Token) (file : String)
    (truncation : Truncation) :
    let rejecting : Input := ⟨tokens, file, .reject, truncation⟩
    let skipping : Input := ⟨tokens, file, .skip, truncation⟩
    (∀ index t,
      (tokens[index]? = some t ∧ rejecting.program.parser.cursor = index + 1 ∧
        rejecting.program.result = .error ⟨.unexpectedToken t.mention, t.position⟩) ↔
      firstSkipped? skipping.program.events = some (index, t)) ∧
    ((∀ text position, rejecting.program.result ≠ .error ⟨.unexpectedToken text, position⟩) →
      skipping.program.result = rejecting.program.result ∧
      skipping.program.parser.cutShort = rejecting.program.parser.cutShort ∧
      skipping.program.parser.cursor = rejecting.program.parser.cursor) := by
  intro rejecting skipping
  obtain ⟨rejects, cutShort⟩ := rejecting.program_rejects
  cases rejects with
  | @unknown index t token result cursor first =>
    refine ⟨?_, fun expected => absurd result (expected _ _)⟩
    intro index' t'
    constructor
    · intro ⟨token', cursor', _⟩
      obtain rfl : index' = index := Nat.succ.inj (cursor'.symm.trans cursor)
      obtain rfl := Option.some.inj (token'.symm.trans token)
      exact first
    · intro found
      obtain ⟨rfl, rfl⟩ := Prod.mk.inj (Option.some.inj (found.symm.trans first))
      exact ⟨token, cursor, result⟩
  | same result cursor none expected =>
    refine ⟨?_, fun _ => ⟨result, cutShort none, cursor⟩⟩
    intro index t
    refine iff_of_false ?_ ?_
    · exact fun h => expected _ _ h.2.2
    · exact fun h => nomatch none.symm.trans h

end Input

end DefLang
