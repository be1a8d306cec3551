import DefLang.Proofs.Grammar.Statements
import DefLang.Proofs.Grammar.Turns

namespace DefLang

/-- What is known of the place where a parser stands. -/
inductive Standing where
  /-- Anywhere, and the token after the cursor may have been looked at already. -/
  | anywhere
  /-- On a token, and the one after it may have been looked at already. -/
  | peeking
  /-- On a token, and nothing after it was looked at. -/
  | token
  | on (t : Token)
  /-- Past the last token. -/
  | ended

namespace Standing

def ahead : Standing → Nat
  | anywhere | peeking => 1
  | token | on _ | ended => 0

def Holds (current? : Option Token) : Standing → Prop
  | anywhere => True
  | peeking | token => current?.isSome
  | on t => current? = some t
  | ended => current? = none

instance : LE Standing :=
  ⟨fun s s' => s.ahead ≤ s'.ahead ∧ ∀ current?, s.Holds current? → s'.Holds current?⟩

def reached : Option Token → Standing
  | some t => on t
  | none => ended

/-- Where a statement leaves the parser: on its last token, or past the end if there is none. -/
def afterStatement : Option Node → Standing
  | some _ => token
  | none => ended

protected theorem le_refl (s : Standing) : s ≤ s := ⟨Nat.le_refl _, fun _ => id⟩

theorem ahead_le_one (s : Standing) : s.ahead ≤ 1 := by cases s <;> simp [ahead]

theorem le_anywhere (s : Standing) : s ≤ anywhere := ⟨s.ahead_le_one, fun _ _ => trivial⟩

theorem on_le_token (t : Token) : on t ≤ token :=
  ⟨Nat.le_refl _, fun _ h => Option.isSome_iff_exists.2 ⟨t, h⟩⟩

theorem on_le_peeking (t : Token) : on t ≤ peeking :=
  ⟨Nat.zero_le _, (on_le_token t).2⟩

theorem token_le_peeking : token ≤ peeking := ⟨Nat.zero_le _, fun _ => id⟩

theorem holds_reached (current? : Option Token) : (reached current?).Holds current? := by
  cases current? <;> rfl

end Standing

/-- Where a fault may be raised. What it mentions is the token it stands on. -/
def Cause.Fits (s : Standing) : Cause → Prop
  | invalidDefinition text | fieldExpected text | typeExpected text | unexpectedToken text =>
    ∃ t, s = .on t ∧ text = t.mention
  | unsupportedDefinition _ => s = .token
  | earlyEnd => s = .ended
  | nestingTooDeep _ => True
  | invalidToken _ | readFailure _ => False

def Event.opensBody : Event → Bool
  | functionBody _ | moduleBody _ => true
  | _ => false

namespace Parse

def opener : Parse (Option Token) := do nextPast (← options).passes

def statementFrom (room : Nat) : Option Token → Parse (Option Node)
  | some t => some <$> statementAt (statement room) (typeExpr room) t
  | none => pure none

theorem statement_succ (room : Nat) : statement (room + 1) = opener >>= statementFrom room := by
  rw [opener, bind_assoc]
  rfl

theorem statementFrom_of_unknown (room : Nat) {t : Token} (h : t.kind.beginsStatement = false) :
    statementFrom room (some t) = fail (.unexpectedToken t.mention) := by
  show some <$> statementAt (statement room) (typeExpr room) t = _
  have unknown : statementAt (statement room) (typeExpr room) t =
      fail (.unexpectedToken t.mention) := by
    unfold statementAt
    cases hk : t.kind with
    | atom | integer | float | string | definitionEnd | functionReturn | definition =>
      rw [hk] at h
      cases h
    | _ => rfl
  rw [unknown]
  rfl

theorem opener_eq (input : Input) (cursor : Nat) :
    opener input cursor = nextPast input.options.passes input cursor := rfl

theorem bind_after {α β : Type} {p : Parse α} {f : α → Parse β} {input : Input}
    {cursor cursor' : Nat} {events : List Event}
    (h : p input cursor = (p input cursor').after events) :
    (p >>= f) input cursor = ((p >>= f) input cursor').after events := by
  cases hr : (p input cursor').result with
  | error d =>
    have hr' : (p input cursor).result = .error d := by rw [h]; exact hr
    rw [bind_error hr', bind_error hr, h]
    rfl
  | ok a =>
    have hr' : (p input cursor).result = .ok a := by rw [h]; exact hr
    rw [bind_ok hr', bind_ok hr, h]
    simp [Outcome.after]

section Opened

variable {α : Type} {f : Option Token → Parse α}

/-- A token that is passed over before a statement changes nothing but what is told. -/
theorem opened_of_pass (input : Input) {cursor : Nat} {t : Token}
    (ht : input.tokens[cursor]? = some t) (hp : input.options.passes t) :
    (opener >>= f) input cursor =
      ((opener >>= f) input (cursor + 1)).after (input.passage cursor) := by
  apply bind_after
  rw [opener_eq, opener_eq]
  exact nextPast_of_pass ht hp

theorem opened_of_stop (input : Input) {cursor : Nat} {next : Option Token}
    (ht : input.tokens[cursor]? = next) (hp : ∀ t, next = some t → input.options.passes t = false) :
    (opener >>= f) input cursor =
      (f next input (cursor + 1)).after [input.arrival cursor] := by
  subst ht
  have first : opener input cursor =
      ⟨.ok input.tokens[cursor]?, cursor + 1, [input.arrival cursor]⟩ := by
    rw [opener_eq]
    exact nextPast_of_stop hp
  have hr : (opener input cursor).result = .ok input.tokens[cursor]? := by rw [first]
  rw [bind_ok hr, first]

end Opened

theorem field_advances (room : Nat) : (field (typeExpr room)).Advances := by
  apply Recognizes.advances fun input => (Recognizes.typeExpr room).field
  intro input tokens item more h
  obtain ⟨t, middle, hd, ⟨_, hturn, _⟩ | ⟨_, e, he, _⟩⟩ := h
  · cases hturn
  · exact Nat.lt_of_le_of_lt he.2.2.1.length_le (length_lt_of_dropWhile hd)

theorem bodyStatement_advances (room : Nat) : (bodyStatement (statement room)).Advances := by
  apply Recognizes.advances fun input => (statement_recognizes input room).bind_some
    fun node => if node.closes then Turn.finish [node] else Turn.again node
  intro input tokens item more h
  obtain ⟨node, h, _⟩ := h
  exact Grammar.length_lt_of_statement h

end Parse

end DefLang
