import DefLang.Grammar.Input

namespace DefLang

/-- What a parser gives, the cursor it leaves, and what it tells on the way. -/
structure Outcome (α : Type) where
  result : Except Diagnostic α
  cursor : Nat
  events : List Event

def Outcome.after {α : Type} (events : List Event) (o : Outcome α) : Outcome α :=
  ⟨o.result, o.cursor, events ++ o.events⟩

/-- Parsing from a cursor on. The input never changes. -/
def Parse (α : Type) : Type := Input → Nat → Outcome α

namespace Parse

instance : Monad Parse where
  pure a := fun _ cursor => ⟨.ok a, cursor, []⟩
  bind p next := fun input cursor =>
    let first := p input cursor
    match first.result with
    | .ok a => (next a input first.cursor).after first.events
    | .error d => ⟨.error d, first.cursor, first.events⟩

def fail {α : Type} (cause : Cause) : Parse α :=
  fun input cursor => ⟨.error ⟨cause, input.position cursor⟩, cursor, []⟩

def tell (event : Event) : Parse Unit := fun _ cursor => ⟨.ok (), cursor, [event]⟩

def options : Parse Options := fun input cursor => ⟨.ok input.options, cursor, []⟩

def current : Parse (Option Token) := fun input cursor => ⟨.ok (input.current? cursor), cursor, []⟩

def peek : Parse (Option Token) := fun input cursor => ⟨.ok (input.peek? cursor), cursor, []⟩

/-- Moves to the next token that is not passed over, or past the end. -/
def nextPast (pass : Token → Bool) : Parse (Option Token) := fun input cursor =>
  let index := input.seek pass cursor
  let passed := List.range' cursor (index - cursor)
  ⟨.ok input.tokens[index]?, index + 1, passed.flatMap input.passage ++ [input.arrival index]⟩

def next : Parse (Option Token) := nextPast fun _ => false

def orEnd (token : Option Token) : Parse Token :=
  match token with
  | some t => pure t
  | none => fail .earlyEnd

def requirePast (pass : Token → Bool) : Parse Token := nextPast pass >>= orEnd

def requireNext : Parse Token := next >>= orEnd

def requireCurrent : Parse Token := current >>= orEnd

def moveOff (pass : Token → Bool) : Parse Unit := do
  if (← current).any pass then
    let _ ← nextPast pass

/-- Moving past a token is moving to it, and then on. -/
theorem nextPast_of_pass {input : Input} {pass : Token → Bool} {cursor : Nat} {t : Token}
    (ht : input.tokens[cursor]? = some t) (hp : pass t) :
    nextPast pass input cursor =
      (nextPast pass input (cursor + 1)).after (input.passage cursor) := by
  have hs := Input.seek_of_pass ht hp
  have hle := Input.le_seek input pass (cursor + 1)
  simp only [nextPast, Outcome.after, hs, Outcome.mk.injEq, true_and]
  obtain ⟨n, hn⟩ := Nat.exists_eq_add_of_le hle
  rw [hn, show cursor + 1 + n - cursor = n + 1 by omega,
    show cursor + 1 + n - (cursor + 1) = n by omega, List.range'_succ]
  simp

theorem nextPast_of_stop {input : Input} {pass : Token → Bool} {cursor : Nat}
    (h : ∀ t, input.tokens[cursor]? = some t → pass t = false) :
    nextPast pass input cursor =
      ⟨.ok input.tokens[cursor]?, cursor + 1, [input.arrival cursor]⟩ := by
  simp [nextPast, Input.seek_of_stop h]

theorem next_eq (input : Input) (cursor : Nat) :
    next input cursor = ⟨.ok input.tokens[cursor]?, cursor + 1, [input.arrival cursor]⟩ :=
  nextPast_of_stop fun _ _ => rfl

theorem bind_ok {α β : Type} {p : Parse α} {next : α → Parse β} {input : Input} {cursor : Nat}
    {a : α} (h : (p input cursor).result = .ok a) :
    (p >>= next) input cursor =
      (next a input (p input cursor).cursor).after (p input cursor).events := by
  simp [Bind.bind, h]

theorem bind_error {α β : Type} {p : Parse α} {next : α → Parse β} {input : Input} {cursor : Nat}
    {d : Diagnostic} (h : (p input cursor).result = .error d) :
    (p >>= next) input cursor = ⟨.error d, (p input cursor).cursor, (p input cursor).events⟩ := by
  simp [Bind.bind, h]

theorem map_id_parse {α : Type} (p : Parse α) : id <$> p = p := by
  funext input cursor
  show (p >>= fun a => pure a) input cursor = p input cursor
  cases h : (p input cursor).result with
  | error d => rw [bind_error h, ← h]
  | ok a =>
    rw [bind_ok h, ← List.append_nil (p input cursor).events]
    simp only [Outcome.after, pure, ← h, List.append_nil]

theorem bind_assoc_parse {α β γ : Type} (p : Parse α) (f : α → Parse β) (g : β → Parse γ) :
    p >>= f >>= g = p >>= fun a => f a >>= g := by
  funext input cursor
  cases h : (p input cursor).result with
  | error d =>
    have hf := @bind_error _ _ _ f _ _ _ h
    rw [bind_error h, bind_error (d := d) (by rw [hf]), hf]
  | ok a =>
    have hf := @bind_ok _ _ _ f _ _ _ h
    rw [bind_ok h]
    cases h' : (f a input (p input cursor).cursor).result with
    | error d =>
      rw [bind_error h', bind_error (d := d) (by rw [hf]; exact h'), hf]
      rfl
    | ok b =>
      rw [bind_ok h', bind_ok (a := b) (by rw [hf]; exact h'), hf]
      simp [Outcome.after]

instance : LawfulMonad Parse :=
  LawfulMonad.mk' Parse map_id_parse (fun _ _ => rfl) bind_assoc_parse

end Parse

end DefLang
