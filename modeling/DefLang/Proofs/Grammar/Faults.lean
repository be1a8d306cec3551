import DefLang.Proofs.Grammar.Congruence

namespace DefLang

/-- The fault is placed at the cursor, and is one that may be raised there. -/
def Diagnostic.StandsAt (d : Diagnostic) (input : Input) (cursor : Nat) : Prop :=
  d.position = input.position cursor ∧
    ∃ s : Standing, d.cause.Fits s ∧ s.Holds (input.current? cursor)

def Outcome.Lands {α : Type} (o : Outcome α) (input : Input) (after : α → Standing) : Prop :=
  match o.result with
  | .ok a => (after a).Holds (input.current? o.cursor)
  | .error d => d.StandsAt input o.cursor

/-- From where the first standing holds, the parser comes to where the second one does, or stops
with a fault right where it is. -/
def Parse.Leads {α : Type} (s : Standing) (after : α → Standing) (p : Parse α) : Prop :=
  ∀ input cursor, s.Holds (input.current? cursor) → (p input cursor).Lands input after

theorem Input.exists_index_of_current? {input : Input} {cursor : Nat}
    (h : (input.current? cursor).isSome) :
    ∃ index, cursor = index + 1 ∧ index < input.tokens.size := by
  obtain ⟨t, ht⟩ := Option.isSome_iff_exists.1 h
  cases cursor with
  | zero => cases ht
  | succ index => exact ⟨index, rfl, (Array.getElem?_eq_some_iff.1 ht).1⟩

/-- On a token the cursor is within the input. -/
theorem Outcome.Lands.cursor_le {α : Type} {o : Outcome α} {input : Input} {after : α → Standing}
    {a : α} (h : o.Lands input after) (hr : o.result = .ok a) (on : after a ≤ .peeking) :
    o.cursor ≤ input.tokens.size := by
  unfold Outcome.Lands at h
  rw [hr] at h
  obtain ⟨index, hc, hi⟩ := Input.exists_index_of_current? (on.2 _ h)
  rw [hc]
  exact hi

namespace Diagnostic

variable {d : Diagnostic} {input : Input} {cursor : Nat}

theorem StandsAt.current?_of_isGrammatical (h : d.StandsAt input cursor)
    (hg : d.cause.isGrammatical) : (input.current? cursor).isSome := by
  obtain ⟨_, s, hf, hs⟩ := h
  cases hc : d.cause with
  | invalidDefinition | fieldExpected | typeExpected | unexpectedToken =>
    rw [hc] at hf
    obtain ⟨t, rfl, _⟩ := hf
    exact Option.isSome_iff_exists.2 ⟨t, hs⟩
  | unsupportedDefinition =>
    rw [hc] at hf
    subst hf
    exact hs
  | _ =>
    rw [hc] at hg
    cases hg

end Diagnostic

namespace Parse

variable {α β : Type} {s : Standing} {after : α → Standing}

namespace Leads

theorem bind {p : Parse α} {f : α → Parse β} {after' : β → Standing} (hp : p.Leads s after)
    (hf : ∀ a, (f a).Leads (after a) after') : (p >>= f).Leads s after' := by
  intro input cursor hs
  have first := hp input cursor hs
  unfold Outcome.Lands at first
  cases hr : (p input cursor).result with
  | error d =>
    rw [hr] at first
    rwa [bind_error hr]
  | ok a =>
    rw [hr] at first
    rw [bind_ok hr]
    exact hf a input _ first

theorem nextPast (pass : Token → Bool) : (Parse.nextPast pass).Leads .anywhere .reached := by
  intro input cursor _
  exact Standing.holds_reached _

theorem fail {cause : Cause} (hf : cause.Fits s) : (Parse.fail cause).Leads s after :=
  fun _ _ h => ⟨rfl, s, hf, h⟩

theorem repeated {turn : Parse (Turn α)} {after : List α → Standing} (ha : turn.Advances)
    (ht : ∀ n, (turnsWithin turn n).Leads s after) : (Parse.repeated turn).Leads s after := by
  intro input cursor hs
  rw [repeated_eq_turnsWithin ha (Nat.lt_succ_self _)]
  exact ht _ input cursor hs

/-- A parser never moves on after a fault. -/
theorem congruence : Congruence fun s after p _ => Leads s after p where
  weaken hs ha hp input cursor h := by
    have first := hp input cursor (hs.2 _ h)
    unfold Outcome.Lands at first ⊢
    split
    · next a hr =>
      rw [hr] at first
      exact (ha a).2 _ first
    · next d hr => rwa [hr] at first
  pure a after input cursor h := h
  bind := bind
  fail after hf _ := fail hf
  tell s _ input cursor h := h
  peek input cursor h := h
  nextPast _ := nextPast _
  repeated ha _ ht := repeated ha ht

end Leads

theorem typeExpr_leads (room : Nat) : (typeExpr room).Leads .anywhere fun _ => .peeking := by
  induction room with
  | zero => exact Leads.congruence.tooDeep
  | succ room ih => exact Leads.congruence.typeExpr_succ (n := room) ih

theorem opener_leads : opener.Leads .anywhere .reached :=
  fun input => Leads.nextPast input.options.passes input

theorem statement_leads (room : Nat) : (statement room).Leads .anywhere .afterStatement := by
  induction room with
  | zero => exact Leads.congruence.tooDeep
  | succ room ih =>
    exact Leads.congruence.statement_succ (n := room) (typeExpr_leads room) ih opener_leads
      fun t _ => Leads.fail ⟨t, rfl, rfl⟩

end Parse

end DefLang
