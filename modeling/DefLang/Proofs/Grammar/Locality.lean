import DefLang.Proofs.Grammar.Congruence

namespace DefLang

/-- From `shift` on, the second input has the first `n` tokens of the first one, in the same
places, and passes over the same tokens. -/
structure Input.Agrees (input other : Input) (shift n : Nat) : Prop where
  passes : other.options.passes = input.options.passes
  tokens : ∀ index < n, other.tokens[shift + index]? = input.tokens[index]?
  position : ∀ cursor, 0 < cursor → cursor ≤ n →
    other.position (shift + cursor) = input.position cursor

/-- How many tokens an outcome can depend on. Where the grammar is at fault, nothing after the
cursor was looked at. -/
def Outcome.extent {α : Type} (o : Outcome α) (after : α → Standing) : Nat :=
  match o.result with
  | .ok a => o.cursor + (after a).ahead
  | .error d => if d.cause.isGrammatical then o.cursor else o.cursor + 1

structure Outcome.Shifted {α : Type} (shift : Nat) (o o' : Outcome α) : Prop where
  result : o'.result = o.result
  cursor : o'.cursor = shift + o.cursor

/-- A parser that looks at no more tokens than its outcome says. -/
structure Parse.IsLocal {α : Type} (s : Standing) (after : α → Standing) (p : Parse α) : Prop where
  forward (input : Input) (cursor : Nat) : cursor ≤ (p input cursor).cursor
  extent (input : Input) (cursor : Nat) : cursor + s.ahead ≤ (p input cursor).extent after
  shifted {input other : Input} {shift n cursor : Nat} (h : input.Agrees other shift n)
    (hc : 0 < cursor) (hn : (p input cursor).extent after ≤ n) :
    (p input cursor).Shifted shift (p other (shift + cursor))

namespace Input.Agrees

variable {input other : Input} {shift n : Nat}

theorem mono {m : Nat} (h : input.Agrees other shift n) (hm : m ≤ n) :
    input.Agrees other shift m where
  passes := h.passes
  tokens index hi := h.tokens index (by omega)
  position cursor h0 hc := h.position cursor h0 (by omega)

/-- On a token, the position is that of the token. -/
theorem of_tokens (options : other.options = input.options) (hn : n ≤ input.tokens.size)
    (tokens : ∀ index < n, other.tokens[shift + index]? = input.tokens[index]?) :
    input.Agrees other shift n where
  passes := by rw [options]
  tokens := tokens
  position cursor h0 hc := by
    obtain ⟨index, rfl⟩ := Nat.exists_eq_succ_of_ne_zero (Nat.ne_of_gt h0)
    have ht := tokens index hc
    rw [Array.getElem?_eq_getElem (Nat.lt_of_lt_of_le hc hn)] at ht
    simp [Input.position, Input.current?, ht,
      Array.getElem?_eq_getElem (Nat.lt_of_lt_of_le hc hn)]

theorem seek (h : input.Agrees other shift n) {pass : Token → Bool} {index : Nat}
    (hn : input.seek pass index < n) :
    other.seek pass (shift + index) = shift + input.seek pass index := by
  fun_induction input.seek pass index with
  | case1 index hi hp ih =>
    have hle := input.le_seek pass (index + 1)
    have ht := h.tokens index (by omega)
    rw [Array.getElem?_eq_getElem hi] at ht
    rw [Input.seek_of_pass ht hp]
    exact ih hn
  | case2 index hi hp =>
    apply Input.seek_of_stop
    rw [h.tokens index hn, Array.getElem?_eq_getElem hi]
    intro t ht
    cases ht
    simpa using hp
  | case3 index hi =>
    apply Input.seek_of_stop
    rw [h.tokens index hn, Array.getElem?_eq_none (by omega)]
    intro t ht
    cases ht

end Input.Agrees

namespace Parse

variable {α β : Type} {s : Standing} {middle : α → Standing} {after : β → Standing}
  {input other : Input} {shift n cursor : Nat}

theorem nextPast_shifted (h : input.Agrees other shift n) {pass : Token → Bool}
    (hn : (nextPast pass input cursor).extent .reached ≤ n) :
    (nextPast pass input cursor).Shifted shift (nextPast pass other (shift + cursor)) := by
  have hlt : input.seek pass cursor < n := by
    have hle : input.seek pass cursor + 1 + _ ≤ n := hn
    omega
  have hs := h.seek hlt
  constructor
  · show Except.ok other.tokens[other.seek pass (shift + cursor)]? = _
    rw [hs, h.tokens _ hlt]
    rfl
  · show other.seek pass (shift + cursor) + 1 = _
    rw [hs]
    rfl

theorem extent_of_ok {p : Parse α} {f : α → Parse β} {a : α}
    (hr : (p input cursor).result = .ok a) :
    ((p >>= f) input cursor).extent after = (f a input (p input cursor).cursor).extent after := by
  rw [bind_ok hr]
  rfl

theorem extent_of_error {p : Parse α} {f : α → Parse β} {d : Diagnostic}
    (hr : (p input cursor).result = .error d) :
    ((p >>= f) input cursor).extent after = (p input cursor).extent middle := by
  rw [bind_error hr]
  simp only [Outcome.extent, hr]

/-- What comes second depends on all that came first. -/
theorem extent_le_bind {p : Parse α} {f : α → Parse β}
    (hf : ∀ a, (f a).IsLocal (middle a) after) :
    (p input cursor).extent middle ≤ ((p >>= f) input cursor).extent after := by
  cases hr : (p input cursor).result with
  | error d => exact (extent_of_error hr).ge
  | ok a =>
    rw [extent_of_ok hr]
    have hle := (hf a).extent input (p input cursor).cursor
    simpa only [Outcome.extent, hr] using hle

theorem bind_shifted {p : Parse α} {f : α → Parse β} (h : input.Agrees other shift n)
    (hp : (p input cursor).extent middle ≤ n →
      (p input cursor).Shifted shift (p other (shift + cursor)))
    (hc : 0 < (p input cursor).cursor) (hf : ∀ a, (f a).IsLocal (middle a) after)
    (hn : ((p >>= f) input cursor).extent after ≤ n) :
    ((p >>= f) input cursor).Shifted shift ((p >>= f) other (shift + cursor)) := by
  obtain ⟨result, moved⟩ := hp (Nat.le_trans (extent_le_bind hf) hn)
  cases hr : (p input cursor).result with
  | error d =>
    rw [bind_error hr, bind_error (result.trans hr)]
    exact ⟨rfl, moved⟩
  | ok a =>
    rw [extent_of_ok hr] at hn
    obtain ⟨result', moved'⟩ := (hf a).shifted h hc hn
    rw [bind_ok hr, bind_ok (result.trans hr), moved]
    exact ⟨result', moved'⟩

theorem extent_mono {o : Outcome α} {after after' : α → Standing} (h : ∀ a, after a ≤ after' a) :
    o.extent after ≤ o.extent after' := by
  unfold Outcome.extent
  split
  · next a _ => exact Nat.add_le_add_left (h a).1 _
  · exact Nat.le_refl _

namespace IsLocal

theorem weaken {s' : Standing} {after after' : α → Standing} {p : Parse α} (hs : s' ≤ s)
    (ha : ∀ a, after a ≤ after' a) (hp : p.IsLocal s after) : p.IsLocal s' after' where
  forward := hp.forward
  extent input cursor :=
    (Nat.add_le_add_left hs.1 cursor).trans ((hp.extent input cursor).trans (extent_mono ha))
  shifted h hc hn := hp.shifted h hc ((extent_mono ha).trans hn)

theorem pure (a : α) (after : α → Standing) : (Pure.pure a : Parse α).IsLocal (after a) after where
  forward _ cursor := Nat.le_refl cursor
  extent _ _ := Nat.le_refl _
  shifted _ _ _ := ⟨rfl, rfl⟩

theorem peek : Parse.peek.IsLocal .peeking fun _ => .peeking where
  forward _ cursor := Nat.le_refl cursor
  extent _ _ := Nat.le_refl _
  shifted {input other shift n cursor} h _ hn := by
    have hlt : cursor < n := hn
    refine ⟨?_, rfl⟩
    show Except.ok other.tokens[shift + cursor]? = _
    rw [h.tokens cursor hlt]
    rfl

theorem bind {p : Parse α} {f : α → Parse β} (hp : p.IsLocal s middle)
    (hf : ∀ a, (f a).IsLocal (middle a) after) : (p >>= f).IsLocal s after where
  forward input cursor := by
    have hle := hp.forward input cursor
    cases hr : (p input cursor).result with
    | error d => rwa [bind_error hr]
    | ok a =>
      rw [bind_ok hr]
      exact hle.trans ((hf a).forward input _)
  extent input cursor := (hp.extent input cursor).trans (extent_le_bind hf)
  shifted {input other shift n cursor} h hc hn :=
    bind_shifted h (hp.shifted h hc) (Nat.lt_of_lt_of_le hc (hp.forward input cursor)) hf hn

theorem nextPast (pass : Token → Bool) : (Parse.nextPast pass).IsLocal .anywhere .reached where
  forward input cursor := Nat.le_succ_of_le (input.le_seek pass cursor)
  extent input cursor :=
    (Nat.succ_le_succ (input.le_seek pass cursor)).trans (Nat.le_add_right _ _)
  shifted h _ hn := nextPast_shifted h hn

theorem fail {cause : Cause} (after : α → Standing) (hf : cause.Fits s) :
    (Parse.fail cause).IsLocal s after where
  forward _ cursor := Nat.le_refl cursor
  extent input cursor := by
    have hle := s.ahead_le_one
    cases cause with
    | invalidDefinition | fieldExpected | typeExpected | unexpectedToken =>
      obtain ⟨t, rfl, _⟩ := hf
      exact Nat.le_refl cursor
    | unsupportedDefinition =>
      cases hf
      exact Nat.le_refl cursor
    | invalidToken | readFailure => cases hf
    | earlyEnd | nestingTooDeep => exact Nat.add_le_add_left hle cursor
  shifted {input other shift n cursor} h hc hn := by
    have hle : cursor ≤ n := by
      refine Nat.le_trans ?_ hn
      show cursor ≤ if cause.isGrammatical then cursor else cursor + 1
      split <;> omega
    constructor
    · show (.error ⟨cause, other.position (shift + cursor)⟩ : Except Diagnostic α) = _
      rw [h.position cursor hc hle]
      rfl
    · rfl

theorem repeated {turn : Parse (Turn α)} {after : List α → Standing} (ha : turn.Advances)
    (ht : ∀ n, (turnsWithin turn n).IsLocal s after) : (Parse.repeated turn).IsLocal s after where
  forward input cursor := by
    rw [repeated_eq_turnsWithin ha (Nat.lt_succ_self _)]
    exact (ht _).forward input cursor
  extent input cursor := by
    rw [repeated_eq_turnsWithin ha (Nat.lt_succ_self _)]
    exact (ht _).extent input cursor
  shifted {input other shift n cursor} h hc hn := by
    -- as many turns as either input may take
    have enough (i : Input) (c : Nat) (hi : i.tokens.size ≤ input.tokens.size + other.tokens.size) :
        Parse.repeated turn i c =
          turnsWithin turn (input.tokens.size + other.tokens.size + 1) i c :=
      repeated_eq_turnsWithin ha (by omega)
    rw [enough input cursor (Nat.le_add_right _ _)] at hn ⊢
    rw [enough other (shift + cursor) (Nat.le_add_left _ _)]
    exact (ht _).shifted h hc hn

theorem congruence : Congruence fun s after p _ => IsLocal s after p where
  weaken := weaken
  pure := pure
  bind := bind
  fail after hf _ := fail after hf
  tell _ _ := {
    forward := fun _ cursor => Nat.le_refl cursor
    extent := fun _ _ => Nat.le_refl _
    shifted := fun _ _ _ => ⟨rfl, rfl⟩ }
  peek := peek
  nextPast _ := nextPast _
  repeated ha _ ht := repeated ha ht

end IsLocal

theorem typeExpr_isLocal (room : Nat) :
    (typeExpr room).IsLocal .anywhere fun _ => .peeking := by
  induction room with
  | zero => exact IsLocal.congruence.tooDeep
  | succ room ih => exact IsLocal.congruence.typeExpr_succ (n := room) ih

theorem opener_shifted (h : input.Agrees other shift n)
    (hn : (opener input cursor).extent .reached ≤ n) :
    (opener input cursor).Shifted shift (opener other (shift + cursor)) := by
  rw [opener_eq] at hn ⊢
  rw [opener_eq, h.passes]
  exact nextPast_shifted h hn

theorem opener_isLocal : opener.IsLocal .anywhere .reached where
  forward input := (IsLocal.nextPast input.options.passes).forward input
  extent input := (IsLocal.nextPast input.options.passes).extent input
  shifted h _ hn := opener_shifted h hn

theorem statement_isLocal (room : Nat) :
    (statement room).IsLocal .anywhere .afterStatement := by
  induction room with
  | zero => exact IsLocal.congruence.tooDeep
  | succ room ih =>
    exact IsLocal.congruence.statement_succ (n := room) (typeExpr_isLocal room) ih opener_isLocal
      fun t _ => IsLocal.fail _ ⟨t, rfl, rfl⟩

theorem statementFrom_isLocal (room : Nat) (t : Option Token) :
    (statementFrom room t).IsLocal (.reached t) .afterStatement :=
  IsLocal.congruence.statementFrom (n := room) (typeExpr_isLocal room) (statement_isLocal room) t
    fun u _ _ => IsLocal.fail _ ⟨u, rfl, rfl⟩

theorem body_isLocal (room : Nat) :
    (body (statement room)).IsLocal .anywhere fun _ => .token :=
  IsLocal.congruence.body (statement_isLocal room) (bodyStatement_advances room)
    (bodyStatement_advances room)

theorem returned_isLocal (room : Nat) :
    (returned (statement room)).IsLocal .anywhere fun _ => .token :=
  @Congruence.returned _ IsLocal.congruence _ (statement room) (statement_isLocal room)

theorem definition_isLocal (room : Nat) (kind : Option String) :
    (definition (statement room) (typeExpr room) kind).IsLocal .anywhere fun _ => .token :=
  @Congruence.definition _ IsLocal.congruence _ (statement room) _ (typeExpr room)
    (body_isLocal room) (typeExpr_isLocal room) kind

end Parse

namespace Repetition

variable {α : Type} {turn : Parse (Turn α)} {after : Turn α → Standing}
  {input other : Input} {shift n : Nat}

/-- The last turn depends on more tokens than those before it. -/
theorem lt_extent_last (ha : turn.Advances)
    (he : ∀ cursor, cursor < (turn input cursor).extent after) (cursor : Nat) :
    cursor < (run turn input cursor).last.extent after := by
  induction cursor using ha.induction input with
  | again cursor item hr ih =>
    have hlt := ha input cursor item hr
    rw [last_again ha hr]
    omega
  | stop cursor hs =>
    rw [run_stop hs]
    exact he cursor

/-- The turns go the same way where each of them does, as far as the last turn depends on. -/
theorem run_shifted (ha : turn.Advances)
    (he : ∀ cursor, cursor < (turn input cursor).extent after)
    (ht : ∀ cursor, (turn input cursor).extent after ≤ n →
      (turn input cursor).Shifted shift (turn other (shift + cursor)))
    (cursor : Nat) (hn : (run turn input cursor).last.extent after ≤ n) :
    (run turn other (shift + cursor)).items = (run turn input cursor).items ∧
      (run turn input cursor).last.Shifted shift (run turn other (shift + cursor)).last := by
  induction cursor using ha.induction input with
  | again cursor item hr ih =>
    have hlt := lt_extent_last ha he (turn input cursor).cursor
    rw [last_again ha hr] at hn ⊢
    have reach : (turn input cursor).extent after ≤ n := by
      have hle := (after (.again item)).ahead_le_one
      simp only [Outcome.extent, hr]
      omega
    obtain ⟨result, moved⟩ := ht cursor reach
    have hr' := result.trans hr
    obtain ⟨items, last⟩ := ih hn
    rw [items_again ha hr', items_again ha hr, last_again ha hr', moved, items]
    exact ⟨rfl, last⟩
  | stop cursor hs =>
    rw [run_stop hs] at hn
    obtain ⟨result, moved⟩ := ht cursor hn
    obtain ⟨last, last', items⟩ := stop_congr hs result
    rw [last, last', items]
    exact ⟨rfl, result, moved⟩

end Repetition

end DefLang
