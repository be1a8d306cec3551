import DefLang.Proofs.Grammar.Standing

namespace DefLang

/-- Relations between parsers, from what is known before to what is known after, that are kept by
all that the parsers of the grammar are built with. Only of a token that begins no statement
nothing is said. -/
structure Congruence
    (R : ∀ {α : Type}, Standing → (α → Standing) → Parse α → Parse α → Prop) : Prop where
  weaken {α : Type} {s s' : Standing} {after after' : α → Standing} {p q : Parse α} :
    s' ≤ s → (∀ a, after a ≤ after' a) → R s after p q → R s' after' p q
  pure {α : Type} (a : α) (after : α → Standing) : R (after a) after (pure a) (pure a)
  bind {α β : Type} {s : Standing} {middle : α → Standing} {after : β → Standing} {p q : Parse α}
    {f g : α → Parse β} :
    R s middle p q → (∀ a, R (middle a) after (f a) (g a)) → R s after (p >>= f) (q >>= g)
  fail {α : Type} {s : Standing} {cause : Cause} (after : α → Standing) :
    cause.Fits s → (∀ text, cause ≠ .unexpectedToken text) →
    R s after (Parse.fail cause) (Parse.fail cause)
  tell {event : Event} (s : Standing) :
    event.opensBody → R s (fun _ => s) (Parse.tell event) (Parse.tell event)
  peek : R .peeking (fun _ => .peeking) Parse.peek Parse.peek
  nextPast {pass : Token → Bool} :
    (∀ t, pass t → t.isLayout) → R .anywhere .reached (Parse.nextPast pass) (Parse.nextPast pass)
  repeated {α : Type} {s : Standing} {after : List α → Standing} {turn turn' : Parse (Turn α)} :
    turn.Advances → turn'.Advances →
    (∀ n, R s after (Parse.turnsWithin turn n) (Parse.turnsWithin turn' n)) →
    R s after (Parse.repeated turn) (Parse.repeated turn')

namespace Congruence

open Parse (tooDeep)

variable {R : ∀ {α : Type}, Standing → (α → Standing) → Parse α → Parse α → Prop}
  (h : Congruence R) {α β : Type} {s s' : Standing} {after : α → Standing}

include h

theorem before {p q : Parse α} (hs : s' ≤ s) (hp : R s after p q) : R s' after p q :=
  h.weaken hs (fun a => (after a).le_refl) hp

theorem done {a : α} (hs : s ≤ after a) : R s after (Pure.pure a) (Pure.pure a) :=
  h.before hs (h.pure a after)

theorem map {p q : Parse α} {after' : β → Standing} (f : α → β) (ha : ∀ a, after a ≤ after' (f a))
    (hp : R s after p q) : R s after' (f <$> p) (f <$> q) := by
  rw [map_eq_pure_bind, map_eq_pure_bind]
  exact h.bind hp fun a => h.done (ha a)

theorem tooDeep : R s after tooDeep tooDeep := h.fail after trivial nofun

theorem orEnd (t : Option Token) : R (.reached t) Standing.on (Parse.orEnd t) (Parse.orEnd t) := by
  cases t with
  | some t => exact h.pure t Standing.on
  | none => exact h.fail Standing.on rfl nofun

theorem requirePast {pass : Token → Bool} (hp : ∀ t, pass t → t.isLayout) :
    R .anywhere .on (Parse.requirePast pass) (Parse.requirePast pass) :=
  h.bind (h.nextPast hp) h.orEnd

theorem requireNext : R .anywhere .on Parse.requireNext Parse.requireNext :=
  h.requirePast nofun

theorem unless_fail {c : Prop} [Decidable c] {cause : Cause} (hf : cause.Fits s)
    (hu : ∀ text, cause ≠ .unexpectedToken text) :
    R s (fun _ => s) (unless c do Parse.fail cause : Parse PUnit)
      (unless c do Parse.fail cause : Parse PUnit) := by
  by_cases hc : c
  · simp only [hc, if_true]
    exact h.pure PUnit.unit fun _ => s
  · simp only [hc, if_false]
    exact h.fail (fun _ => s) hf hu

theorem ite_fail {c : Prop} [Decidable c] {cause : Cause} (hf : cause.Fits s)
    (hu : ∀ text, cause ≠ .unexpectedToken text) (f g : β → Parse α) {p q : Parse α}
    (hp : R s after p q) :
    R s after (if c then p else Parse.fail cause >>= f)
      (if c then q else Parse.fail cause >>= g) := by
  by_cases hc : c
  · rwa [if_pos hc, if_pos hc]
  · -- what would come after a fault plays no part
    rw [if_neg hc, if_neg hc]
    exact h.fail after hf hu

theorem headerEnd : R .anywhere (fun _ => .token) Parse.headerEnd Parse.headerEnd := by
  apply h.bind (h.requirePast fun _ => Token.isLayout_of_isComment)
  intro t
  exact h.weaken (Standing.le_refl _) (fun _ => Standing.on_le_token t)
    (h.unless_fail ⟨t, rfl, rfl⟩ nofun)

/-- The items of the turns can stand where any one turn starts. -/
theorem turnsWithin {turn turn' : Parse (Turn α)} (ht : R .anywhere (fun _ => s) turn turn')
    (n : Nat) :
    R .anywhere (fun _ => s) (Parse.turnsWithin turn n) (Parse.turnsWithin turn' n) := by
  induction n with
  | zero => exact h.tooDeep
  | succ n ih =>
    apply h.bind ht
    intro t
    cases t with
    | finish items => exact h.pure items fun _ => s
    | again item =>
      exact h.map _ (fun _ => s.le_refl) (h.before s.le_anywhere ih)

section Types

variable {type type' : Parse TypeExpr}
  (ht : R .anywhere (fun _ => .peeking) type type')

include ht

theorem field : R .anywhere (fun _ => .peeking) (Parse.field type) (Parse.field type') := by
  apply h.bind (h.requirePast fun _ => id)
  intro t
  cases hk : t.kind with
  | curlyClose => exact h.done (Standing.on_le_peeking t)
  | declaration =>
    exact h.bind (h.before (Standing.le_anywhere _) ht) fun e => h.done (Standing.le_refl _)
  | _ => exact h.fail _ ⟨t, rfl, rfl⟩ nofun

theorem arrow (argument : TypeExpr) :
    R .peeking (fun _ => .peeking) (Parse.arrow type argument) (Parse.arrow type' argument) := by
  apply h.bind h.peek
  intro t
  cases t.any (·.kind == .arrow) with
  | false => exact h.done (Standing.le_refl _)
  | true =>
    have result := fun t => h.bind (h.before (Standing.le_anywhere (.reached t)) ht) fun e =>
      h.pure (TypeExpr.function argument e) fun _ => .peeking
    exact h.before (Standing.le_anywhere _) (h.bind (h.nextPast nofun) result)

end Types

theorem typeExpr_succ {m n : Nat}
    (ht : R .anywhere (fun _ => .peeking) (Parse.typeExpr m) (Parse.typeExpr n)) :
    R .anywhere (fun _ => .peeking) (Parse.typeExpr (m + 1)) (Parse.typeExpr (n + 1)) := by
  apply h.bind h.requireNext
  intro t
  cases hk : t.kind with
  | identifier => exact h.before (Standing.on_le_peeking t) (h.arrow ht _)
  | curlyOpen =>
    have fields := h.repeated (Parse.field_advances m) (Parse.field_advances n)
      (h.turnsWithin (h.field ht))
    exact h.bind (h.before (Standing.le_anywhere _) fields) fun _ => h.arrow ht _
  | _ => exact h.fail _ ⟨t, rfl, rfl⟩ nofun

section Statements

variable {statement statement' : Parse (Option Node)}
  (hs : R .anywhere .afterStatement statement statement')

include hs

/-- Where the input may not end. -/
theorem needed (f : Node → α) :
    R .anywhere (fun _ => .token)
      (statement >>= fun
        | some node => Pure.pure (f node)
        | none => Parse.fail .earlyEnd : Parse α)
      (statement' >>= fun
        | some node => Pure.pure (f node)
        | none => Parse.fail .earlyEnd : Parse α) := by
  apply h.bind hs
  intro t
  cases t with
  | some node => exact h.pure (f node) fun _ => .token
  | none => exact h.fail _ rfl nofun

theorem returned :
    R .anywhere (fun _ => .token) (Parse.returned statement) (Parse.returned statement') :=
  h.needed hs Node.functionReturn

theorem bodyStatement :
    R .anywhere (fun _ => .token) (Parse.bodyStatement statement)
      (Parse.bodyStatement statement') :=
  h.needed hs fun node => if node.closes then Turn.finish [node] else Turn.again node

theorem body (ha : (Parse.bodyStatement statement).Advances)
    (ha' : (Parse.bodyStatement statement').Advances) :
    R .anywhere (fun _ => .token) (Parse.body statement) (Parse.body statement') :=
  h.repeated ha ha' (h.turnsWithin (h.bodyStatement hs))

end Statements

section Definitions

variable {statement statement' : Parse (Option Node)} {type type' : Parse TypeExpr}
  (hb : R .anywhere (fun _ => .token) (Parse.body statement) (Parse.body statement'))
  (ht : R .anywhere (fun _ => .peeking) type type')

include hb

/-- The body after a header. -/
theorem bodyAfter {event : Event} (he : event.opensBody) (f : List Node → α) :
    R .token (fun _ => .token)
      (do
        Parse.tell event
        return f (← Parse.body statement) : Parse α)
      (do
        Parse.tell event
        return f (← Parse.body statement') : Parse α) := by
  apply h.bind (h.tell .token he)
  intro u
  exact h.bind (h.before (Standing.le_anywhere _) hb) fun nodes => h.pure (f nodes) fun _ => .token

include ht

theorem definition (kind : Option String) :
    R .anywhere (fun _ => .token) (Parse.definition statement type kind)
      (Parse.definition statement' type' kind) := by
  apply h.bind h.requireNext
  intro t
  have misplaced : (Cause.invalidDefinition t.mention).Fits (.on t) := ⟨t, rfl, rfl⟩
  apply h.ite_fail misplaced nofun
  apply h.bind (h.before (Standing.on_le_peeking t) h.peek)
  intro next
  cases next.any (·.kind.beginsType) with
  | true =>
    apply h.bind (h.before (Standing.le_anywhere _) ht)
    intro signature
    apply h.bind (h.before (Standing.le_anywhere _) h.headerEnd)
    intro u
    exact h.bodyAfter hb rfl (Node.functionDefinition t.content signature)
  | false =>
    apply h.bind (h.before (Standing.le_anywhere _) h.headerEnd)
    intro u
    by_cases hk : kind = some "module"
    · simp only [hk, if_true]
      exact h.bodyAfter hb rfl (Node.moduleDefinition t.content)
    · simp only [hk, if_false]
      exact h.fail _ rfl nofun

theorem statementAt (hs : R .anywhere .afterStatement statement statement') {t : Token}
    (hu : ¬t.kind.beginsStatement → R (.on t) (fun _ => .token)
      (Parse.fail (.unexpectedToken t.mention) : Parse Node)
      (Parse.fail (.unexpectedToken t.mention))) :
    R (.on t) (fun _ => .token) (Parse.statementAt statement type t)
      (Parse.statementAt statement' type' t) := by
  unfold Parse.statementAt
  cases hk : t.kind with
  | atom | integer | float | string | definitionEnd => exact h.done (Standing.on_le_token t)
  | functionReturn => exact h.before (Standing.le_anywhere _) (h.returned hs)
  | definition => exact h.before (Standing.le_anywhere _) (h.definition hb ht t.value)
  | _ => exact hu (by simp [hk, Kind.beginsStatement])

end Definitions

section Nesting

variable {m n : Nat} (ht : R .anywhere (fun _ => .peeking) (Parse.typeExpr m) (Parse.typeExpr n))
  (hs : R .anywhere .afterStatement (Parse.statement m) (Parse.statement n))

include ht hs

theorem statementFrom (t : Option Token)
    (hu : ∀ u, t = some u → ¬u.kind.beginsStatement → R (.on u) (fun _ => .token)
      (Parse.fail (.unexpectedToken u.mention) : Parse Node)
      (Parse.fail (.unexpectedToken u.mention))) :
    R (.reached t) .afterStatement (Parse.statementFrom m t) (Parse.statementFrom n t) := by
  have hb := h.body hs (Parse.bodyStatement_advances m) (Parse.bodyStatement_advances n)
  cases t with
  | some t => exact h.map some (fun _ => Standing.le_refl _) (h.statementAt hb ht hs (hu t rfl))
  | none => exact h.pure none .afterStatement

theorem statement_succ (ho : R .anywhere .reached Parse.opener Parse.opener)
    (hu : ∀ t : Token, ¬t.kind.beginsStatement → R (.on t) (fun _ => .token)
      (Parse.fail (.unexpectedToken t.mention) : Parse Node)
      (Parse.fail (.unexpectedToken t.mention))) :
    R .anywhere .afterStatement (Parse.statement (m + 1)) (Parse.statement (n + 1)) := by
  rw [Parse.statement_succ, Parse.statement_succ]
  exact h.bind ho fun t => h.statementFrom ht hs t fun u _ => hu u

end Nesting

end Congruence

end DefLang
