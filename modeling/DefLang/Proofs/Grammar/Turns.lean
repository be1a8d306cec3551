import DefLang.Grammar.Type
import DefLang.Proofs.Grammar.Recognition

namespace DefLang

/-- A turn after which comes another one has taken some of the tokens. -/
def Parse.Advances {α : Type} (turn : Parse (Turn α)) : Prop :=
  ∀ input cursor item, (turn input cursor).result = .ok (.again item) →
    input.tokens.size - (turn input cursor).cursor < input.tokens.size - cursor

namespace Parse

variable {α β : Type} {turn : Parse (Turn α)} {input : Input} {cursor : Nat}

theorem Recognizes.advances {g : Input → Grammar (Turn α)}
    (h : ∀ input, turn.Recognizes input (g input))
    (shorter : ∀ {input tokens item more},
      g input tokens (.again item) more → more.length < tokens.length) : turn.Advances := by
  intro input cursor item hr
  have hlt := shorter ((h input cursor _ _).1 ⟨hr, rfl⟩)
  rwa [Input.length_rest, Input.length_rest] at hlt

/-- From turn to turn, on the tokens that are left. -/
theorem Advances.induction (ha : turn.Advances) (input : Input) {motive : Nat → Prop}
    (again : ∀ cursor item, (turn input cursor).result = .ok (.again item) →
      motive (turn input cursor).cursor → motive cursor)
    (stop : ∀ cursor, (∀ item, (turn input cursor).result ≠ .ok (.again item)) → motive cursor)
    (cursor : Nat) : motive cursor := by
  induction hn : input.tokens.size - cursor using Nat.strongRecOn generalizing cursor with
  | _ n ih =>
    by_cases h : ∃ item, (turn input cursor).result = .ok (.again item)
    · obtain ⟨item, hr⟩ := h
      exact again cursor item hr (ih _ (hn ▸ ha input cursor item hr) _ rfl)
    · exact stop cursor fun item hr => h ⟨item, hr⟩

def turnsWithin (turn : Parse (Turn α)) : Nat → Parse (List α)
  | 0 => tooDeep
  | n + 1 => do
    match ← turn with
    | .again item => (item :: ·) <$> turnsWithin turn n
    | .finish items => return items

theorem map_congr_at {p q : Parse α} (f : α → β) (h : p input cursor = q input cursor) :
    (f <$> p) input cursor = (f <$> q) input cursor := by
  show (p >>= fun a => pure (f a)) input cursor = (q >>= fun a => pure (f a)) input cursor
  simp only [Bind.bind, h]

/-- Every turn but the last takes a token, so there are never more turns than that. -/
theorem repeated_eq_turnsWithin (ha : turn.Advances) {n : Nat}
    (hn : input.tokens.size - cursor < n) :
    repeated turn input cursor = turnsWithin turn n input cursor := by
  induction n generalizing cursor with
  | zero => omega
  | succ n ih =>
    cases hr : (turn input cursor).result with
    | error d => rw [repeated_error hr, turnsWithin, bind_error hr]
    | ok t =>
      rw [turnsWithin, bind_ok hr]
      cases t with
      | finish items =>
        rw [repeated_finish hr]
        simp [Outcome.after, pure]
      | again item =>
        have hlt := ha input cursor item hr
        rw [repeated_again hr hlt, map_congr_at _ (ih (by omega))]

end Parse

namespace Repetition

variable {α : Type} {turn : Parse (Turn α)} {input : Input} {cursor : Nat}

theorem run_again (ha : turn.Advances) {item : α}
    (h : (turn input cursor).result = .ok (.again item)) :
    run turn input cursor =
      ⟨turn input cursor :: (run turn input (turn input cursor).cursor).before,
        (run turn input (turn input cursor).cursor).last⟩ :=
  run_of_goesOn (by simp [Outcome.goesOn, Turn.goesOn, h, ha input cursor item h])

theorem run_stop (h : ∀ item, (turn input cursor).result ≠ .ok (.again item)) :
    run turn input cursor = ⟨[], turn input cursor⟩ := by
  apply run_of_stop
  unfold Outcome.goesOn Turn.goesOn
  split
  · next item hr => exact absurd hr (h item)
  · simp

theorem items_again (ha : turn.Advances) {item : α}
    (h : (turn input cursor).result = .ok (.again item)) :
    (run turn input cursor).items =
      item :: (run turn input (turn input cursor).cursor).items := by
  rw [run_again ha h]
  simp [items, turns, Outcome.items, h, Turn.items]

theorem events_again (ha : turn.Advances) {item : α}
    (h : (turn input cursor).result = .ok (.again item)) :
    (run turn input cursor).events =
      (turn input cursor).events ++ (run turn input (turn input cursor).cursor).events := by
  rw [run_again ha h]
  simp [events, turns]

theorem last_again (ha : turn.Advances) {item : α}
    (h : (turn input cursor).result = .ok (.again item)) :
    (run turn input cursor).last = (run turn input (turn input cursor).cursor).last := by
  rw [run_again ha h]

theorem items_stop (h : ∀ item, (turn input cursor).result ≠ .ok (.again item)) :
    (run turn input cursor).items = (turn input cursor).items := by
  simp [run_stop h, items, turns]

/-- Where one run stops at once, so does another one whose first turn ends in the same way. -/
theorem stop_congr {other : Input} {next : Nat}
    (h : ∀ item, (turn input cursor).result ≠ .ok (.again item))
    (result : (turn other next).result = (turn input cursor).result) :
    (run turn input cursor).last = turn input cursor ∧
      (run turn other next).last = turn other next ∧
      (run turn other next).items = (run turn input cursor).items := by
  have h' : ∀ item, (turn other next).result ≠ .ok (.again item) := by rwa [result]
  rw [items_stop h, items_stop h', run_stop h, run_stop h', Outcome.items, Outcome.items, result]
  exact ⟨rfl, rfl, rfl⟩

end Repetition

end DefLang
