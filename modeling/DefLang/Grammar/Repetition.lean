import DefLang.Grammar.Parse

namespace DefLang

/-- What one turn of a repetition gives: an item after which comes another turn, or the last
items. -/
inductive Turn (α : Type) where
  | again (item : α)
  | finish (items : List α)

namespace Turn

variable {α : Type}

def items : Turn α → List α
  | again item => [item]
  | finish items => items

/-- Whether another turn follows one: it has to say so, and to have left less to read. -/
def goesOn (result : Except Diagnostic (Turn α)) (left before : Nat) : Bool :=
  match result with
  | .ok (.again _) => left < before
  | _ => false

theorem lt_of_goesOn {result : Except Diagnostic (Turn α)} {left before : Nat}
    (h : goesOn result left before) : left < before := by
  unfold goesOn at h
  split at h
  · exact of_decide_eq_true h
  · cases h

end Turn

namespace Outcome

def items {α : Type} (o : Outcome (Turn α)) : List α :=
  match o.result with
  | .ok turn => turn.items
  | .error _ => []

def goesOn {α : Type} (o : Outcome (Turn α)) (input : Input) (cursor : Nat) : Bool :=
  Turn.goesOn o.result (input.tokens.size - o.cursor) (input.tokens.size - cursor)

theorem decreases_of_goesOn {α : Type} {o : Outcome (Turn α)} {input : Input} {cursor : Nat}
    (h : o.goesOn input cursor) : input.tokens.size - o.cursor < input.tokens.size - cursor :=
  Turn.lt_of_goesOn h

end Outcome

/-- The turns of a repetition, of which only the last may fail. -/
structure Repetition (α : Type) where
  before : List (Outcome (Turn α))
  last : Outcome (Turn α)

namespace Repetition

variable {α : Type}

def turnsOnto (turn : Parse (Turn α)) (input : Input) (before : List (Outcome (Turn α)))
    (cursor : Nat) : Repetition α :=
  let o := turn input cursor
  if o.goesOn input cursor then
    turnsOnto turn input (o :: before) o.cursor
  else
    ⟨before.reverse, o⟩
termination_by input.tokens.size - cursor
decreasing_by exact Outcome.decreases_of_goesOn ‹_›

def run (turn : Parse (Turn α)) (input : Input) (cursor : Nat) : Repetition α :=
  turnsOnto turn input [] cursor

def turns (r : Repetition α) : List (Outcome (Turn α)) := r.before ++ [r.last]

def items (r : Repetition α) : List α := r.turns.flatMap Outcome.items

def events (r : Repetition α) : List Event := r.turns.flatMap Outcome.events

section Turns

variable {turn : Parse (Turn α)} {input : Input} {before : List (Outcome (Turn α))} {cursor : Nat}

theorem turnsOnto_of_goesOn (h : (turn input cursor).goesOn input cursor) :
    turnsOnto turn input before cursor =
      turnsOnto turn input (turn input cursor :: before) (turn input cursor).cursor := by
  rw [turnsOnto, if_pos h]

theorem turnsOnto_of_stop (h : ¬(turn input cursor).goesOn input cursor) :
    turnsOnto turn input before cursor = ⟨before.reverse, turn input cursor⟩ := by
  rw [turnsOnto, if_neg h]

theorem turnsOnto_eq (before : List (Outcome (Turn α))) (cursor : Nat) :
    turnsOnto turn input before cursor =
      ⟨before.reverse ++ (run turn input cursor).before, (run turn input cursor).last⟩ := by
  induction hn : input.tokens.size - cursor using Nat.strongRecOn generalizing before cursor with
  | _ n ih =>
    unfold run
    by_cases h : (turn input cursor).goesOn input cursor
    · have hl := hn ▸ Outcome.decreases_of_goesOn h
      rw [turnsOnto_of_goesOn h, turnsOnto_of_goesOn h]
      rw [ih _ hl (turn input cursor :: before) _ rfl, ih _ hl [turn input cursor] _ rfl]
      simp
    · simp [turnsOnto_of_stop h]

theorem run_of_goesOn (h : (turn input cursor).goesOn input cursor) :
    run turn input cursor =
      ⟨turn input cursor :: (run turn input (turn input cursor).cursor).before,
        (run turn input (turn input cursor).cursor).last⟩ := by
  rw [run, turnsOnto_of_goesOn h, turnsOnto_eq]
  rfl

theorem run_of_stop (h : ¬(turn input cursor).goesOn input cursor) :
    run turn input cursor = ⟨[], turn input cursor⟩ :=
  turnsOnto_of_stop h

end Turns

end Repetition

/-- The items of all turns. A fault in one turn is the fault of the whole. -/
def Parse.repeated {α : Type} (turn : Parse (Turn α)) : Parse (List α) := fun input cursor =>
  let r := Repetition.run turn input cursor
  ⟨r.last.result.map fun _ => r.items, r.last.cursor, r.events⟩

namespace Parse

variable {α : Type} {turn : Parse (Turn α)} {input : Input} {cursor : Nat}

/-- A turn that moves on is followed by the repetition from where it left the cursor. -/
theorem repeated_again {a : α} (h : (turn input cursor).result = .ok (.again a))
    (hc : input.tokens.size - (turn input cursor).cursor < input.tokens.size - cursor) :
    repeated turn input cursor =
      (((a :: ·) <$> repeated turn) input (turn input cursor).cursor).after
        (turn input cursor).events := by
  have hg : (turn input cursor).goesOn input cursor := by simp [Outcome.goesOn, Turn.goesOn, h, hc]
  have hi : (turn input cursor).items = [a] := by simp [Outcome.items, h, Turn.items]
  rw [map_eq_pure_bind]
  generalize hn : (turn input cursor).cursor = n
  cases hr : (repeated turn input n).result with
  | error d =>
    rw [bind_error hr]
    simp only [repeated] at hr ⊢
    rw [Repetition.run_of_goesOn hg, hn]
    cases hl : (Repetition.run turn input n).last.result with
    | ok b => rw [hl] at hr; cases hr
    | error e =>
      rw [hl] at hr
      simp only [Except.map, Except.error.injEq] at hr
      simp [Outcome.after, Repetition.events, Repetition.turns, Except.map, hr]
  | ok as =>
    rw [bind_ok hr]
    simp only [repeated] at hr ⊢
    rw [Repetition.run_of_goesOn hg, hn]
    cases hl : (Repetition.run turn input n).last.result with
    | error e => rw [hl] at hr; cases hr
    | ok b =>
      rw [hl] at hr
      simp only [Except.map, Except.ok.injEq] at hr
      simp [Outcome.after, Repetition.events, Repetition.items, Repetition.turns, Except.map, hi,
        ← hr, pure]

theorem repeated_finish {as : List α} (h : (turn input cursor).result = .ok (.finish as)) :
    repeated turn input cursor =
      ⟨.ok as, (turn input cursor).cursor, (turn input cursor).events⟩ := by
  have hg : ¬(turn input cursor).goesOn input cursor := by simp [Outcome.goesOn, Turn.goesOn, h]
  simp [repeated, Repetition.run_of_stop hg, h, Except.map, Repetition.items, Repetition.events,
    Repetition.turns, Outcome.items, Turn.items]

theorem repeated_error {d : Diagnostic} (h : (turn input cursor).result = .error d) :
    repeated turn input cursor =
      ⟨.error d, (turn input cursor).cursor, (turn input cursor).events⟩ := by
  have hg : ¬(turn input cursor).goesOn input cursor := by simp [Outcome.goesOn, Turn.goesOn, h]
  simp [repeated, Repetition.run_of_stop hg, h, Except.map, Repetition.events, Repetition.turns]

end Parse

end DefLang
