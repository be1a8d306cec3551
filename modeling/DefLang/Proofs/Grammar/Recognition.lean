import DefLang.Grammar.Repetition

namespace DefLang

/-- What can be read from some tokens: the thing that was read and the tokens that are left. -/
abbrev Grammar (α : Type) : Type := List Token → α → List Token → Prop

def Input.rest (input : Input) (cursor : Nat) : List Token := input.tokens.toList.drop cursor

/-- The parser succeeds exactly as the grammar has it. It looks at nothing but the tokens after the
cursor. -/
def Parse.Recognizes {α : Type} (p : Parse α) (input : Input) (g : Grammar α) : Prop :=
  ∀ cursor a more, ((p input cursor).result = .ok a ∧ input.rest (p input cursor).cursor = more) ↔
    g (input.rest cursor) a more

theorem length_lt_of_dropWhile {pass : Token → Bool} {tokens middle : List Token} {t : Token}
    (h : tokens.dropWhile pass = t :: middle) : middle.length < tokens.length := by
  have hle := (List.dropWhile_sublist pass (l := tokens)).length_le
  rw [h, List.length_cons] at hle
  exact hle

namespace Input

variable {input : Input} {cursor : Nat}

theorem head?_rest (input : Input) (cursor : Nat) :
    (input.rest cursor).head? = input.tokens[cursor]? := by
  rw [rest, List.head?_drop, Array.getElem?_toList]

theorem rest_succ (input : Input) (cursor : Nat) :
    input.rest (cursor + 1) = (input.rest cursor).tail := by
  rw [rest, rest, List.tail_drop]

theorem length_rest (input : Input) (cursor : Nat) :
    (input.rest cursor).length = input.tokens.size - cursor := by
  rw [rest, List.length_drop, Array.length_toList]

theorem rest_of_lt (h : cursor < input.tokens.size) :
    input.rest cursor = input.tokens[cursor] :: input.rest (cursor + 1) := by
  rw [rest, List.drop_eq_getElem_cons (by simpa using h), rest, Array.getElem_toList]

theorem rest_seek (input : Input) (pass : Token → Bool) (cursor : Nat) :
    input.rest (input.seek pass cursor) = (input.rest cursor).dropWhile pass := by
  fun_induction input.seek pass cursor with
  | case1 cursor hi hp ih => rw [ih, rest_of_lt hi, List.dropWhile_cons_of_pos hp]
  | case2 cursor hi hp => rw [rest_of_lt hi, List.dropWhile_cons_of_neg hp]
  | case3 cursor hi =>
    have hr : input.rest cursor = [] := by
      rw [← List.length_eq_zero_iff, length_rest]
      omega
    rw [hr]
    rfl

end Input

namespace Parse

variable {α β : Type} {input : Input}

namespace Recognizes

theorem congr {p : Parse α} {g g' : Grammar α} (h : p.Recognizes input g)
    (hg : ∀ tokens a more, g tokens a more ↔ g' tokens a more) : p.Recognizes input g' := by
  intro cursor a more
  rw [h cursor a more, hg]

/-- A parser that never fails gives what the tokens say. -/
theorem of_ok {p : Parse α} {value : List Token → α} {left : List Token → List Token}
    (h : ∀ cursor, (p input cursor).result = .ok (value (input.rest cursor)) ∧
      input.rest (p input cursor).cursor = left (input.rest cursor)) :
    p.Recognizes input fun tokens a more => a = value tokens ∧ more = left tokens := by
  intro cursor a more
  obtain ⟨hr, hc⟩ := h cursor
  rw [hr, hc, Except.ok.injEq, eq_comm, @eq_comm _ _ more]

theorem pure (a : α) :
    (Pure.pure a : Parse α).Recognizes input fun tokens b more => b = a ∧ more = tokens :=
  of_ok fun _ => ⟨rfl, rfl⟩

theorem fail (cause : Cause) :
    (Parse.fail cause : Parse α).Recognizes input fun _ _ _ => False := by
  intro cursor a more
  exact iff_of_false (fun h => by cases h.1) id

theorem tell (event : Event) :
    (Parse.tell event).Recognizes input fun tokens u more => u = () ∧ more = tokens :=
  of_ok fun _ => ⟨rfl, rfl⟩

theorem options :
    Parse.options.Recognizes input fun tokens o more => o = input.options ∧ more = tokens :=
  of_ok fun _ => ⟨rfl, rfl⟩

theorem peek : Parse.peek.Recognizes input fun tokens t more => t = tokens.head? ∧ more = tokens :=
  of_ok fun cursor => ⟨congrArg Except.ok (Input.head?_rest input cursor).symm, rfl⟩

theorem nextPast (pass : Token → Bool) :
    (Parse.nextPast pass).Recognizes input fun tokens t more =>
      t = (tokens.dropWhile pass).head? ∧ more = (tokens.dropWhile pass).tail := by
  apply of_ok
  intro cursor
  rw [← Input.rest_seek, Input.head?_rest, ← Input.rest_succ]
  exact ⟨rfl, rfl⟩

/-- What the second parser reads starts where the first one stopped. -/
theorem bind {p : Parse α} {next : α → Parse β} {g : Grammar α} {h : α → Grammar β}
    (hp : p.Recognizes input g) (hn : ∀ a, (next a).Recognizes input (h a)) :
    (p >>= next).Recognizes input fun tokens b more =>
      ∃ a middle, g tokens a middle ∧ h a middle b more := by
  intro cursor b more
  cases hr : (p input cursor).result with
  | error d =>
    -- then the grammar of the first parser has nothing to read either
    rw [bind_error hr]
    refine iff_of_false (fun h => by cases h.1) ?_
    rintro ⟨a, middle, hg, _⟩
    rw [← hp, hr] at hg
    cases hg.1
  | ok a =>
    rw [bind_ok hr]
    show ((next a input (p input cursor).cursor).result = _ ∧
      input.rest (next a input (p input cursor).cursor).cursor = _) ↔ _
    rw [hn a]
    constructor
    · intro h
      exact ⟨a, _, (hp cursor a _).1 ⟨hr, rfl⟩, h⟩
    · rintro ⟨a', middle, hg, h⟩
      obtain ⟨ha, rfl⟩ := (hp cursor a' middle).2 hg
      rw [hr] at ha
      cases ha
      exact h

theorem bind_pure {p : Parse α} {g : Grammar α} (f : α → β) (hp : p.Recognizes input g) :
    (p >>= fun a => Pure.pure (f a)).Recognizes input fun tokens b more =>
      ∃ a, g tokens a more ∧ b = f a := by
  refine (hp.bind fun a => Recognizes.pure (f a)).congr ?_
  intro tokens b more
  constructor
  · rintro ⟨a, middle, hg, rfl, rfl⟩
    exact ⟨a, hg, rfl⟩
  · rintro ⟨a, hg, rfl⟩
    exact ⟨a, more, hg, rfl, rfl⟩

theorem bind_of_ok {p : Parse α} {next : α → Parse β} {value : List Token → α}
    {left : List Token → List Token} {h : α → Grammar β}
    (hp : p.Recognizes input fun tokens a more => a = value tokens ∧ more = left tokens)
    (hn : ∀ a, (next a).Recognizes input (h a)) :
    (p >>= next).Recognizes input fun tokens b more => h (value tokens) (left tokens) b more := by
  refine (hp.bind hn).congr ?_
  intro tokens b more
  constructor
  · rintro ⟨_, _, ⟨rfl, rfl⟩, h⟩
    exact h
  · intro h
    exact ⟨_, _, ⟨rfl, rfl⟩, h⟩

theorem unless_fail (c : Prop) [Decidable c] (cause : Cause) :
    (unless c do Parse.fail cause : Parse PUnit).Recognizes input fun tokens _ more =>
      c ∧ more = tokens := by
  by_cases hc : c
  · simp only [hc, if_true]
    exact (Recognizes.pure PUnit.unit).congr fun _ _ _ => by simp
  · simp only [hc, if_false]
    exact (Recognizes.fail cause).congr fun _ _ _ => by simp

theorem ite_fail {p : Parse α} {g : Grammar α} (c : Prop) [Decidable c] (cause : Cause)
    (next : β → Parse α) (hp : p.Recognizes input g) :
    (if c then p else Parse.fail cause >>= next).Recognizes input fun tokens a more =>
      c ∧ g tokens a more := by
  split
  · next hc => exact hp.congr fun _ _ _ => by simp [hc]
  · next hc =>
    intro cursor a more
    exact iff_of_false (fun h => by cases h.1) fun h => hc h.1

theorem orEnd (t : Option Token) :
    (Parse.orEnd t).Recognizes input fun tokens u more => t = some u ∧ more = tokens := by
  cases t with
  | none => exact (Recognizes.fail .earlyEnd).congr fun _ _ _ => by simp
  | some t => exact (Recognizes.pure t).congr fun _ _ _ => by simp [eq_comm]

theorem requirePast (pass : Token → Bool) :
    (Parse.requirePast pass).Recognizes input fun tokens t more =>
      tokens.dropWhile pass = t :: more := by
  refine ((Recognizes.nextPast pass).bind Recognizes.orEnd).congr ?_
  intro tokens t more
  constructor
  · rintro ⟨_, _, ⟨rfl, rfl⟩, ht, rfl⟩
    obtain ⟨rest, hr⟩ := List.head?_eq_some_iff.1 ht
    rw [hr]
    rfl
  · intro h
    exact ⟨some t, more, by simp [h], rfl, rfl⟩

theorem next :
    Parse.next.Recognizes input fun tokens t more => t = tokens.head? ∧ more = tokens.tail := by
  refine (Recognizes.nextPast _).congr ?_
  intro tokens t more
  cases tokens <;> rfl

theorem requireNext :
    Parse.requireNext.Recognizes input fun tokens t more => tokens = t :: more := by
  refine (Recognizes.requirePast fun _ => false).congr ?_
  intro tokens t more
  cases tokens <;> rfl

end Recognizes

/-- One turn after another, the last of which finishes. -/
inductive Turns (g : Grammar (Turn α)) : Grammar (List α)
  | finish {tokens items more} (last : g tokens (.finish items) more) : Turns g tokens items more
  | again {tokens item middle items more} (first : g tokens (.again item) middle)
      (others : Turns g middle items more) : Turns g tokens (item :: items) more

theorem result_map (f : α → β) (p : Parse α) (input : Input) (cursor : Nat) :
    ((f <$> p) input cursor).result = (p input cursor).result.map f := by
  rw [map_eq_pure_bind]
  cases h : (p input cursor).result with
  | error d => rw [bind_error h]; rfl
  | ok a => rw [bind_ok h]; rfl

theorem cursor_map (f : α → β) (p : Parse α) (input : Input) (cursor : Nat) :
    ((f <$> p) input cursor).cursor = (p input cursor).cursor := by
  rw [map_eq_pure_bind]
  cases h : (p input cursor).result with
  | error d => rw [bind_error h]
  | ok a => rw [bind_ok h]; rfl

section Repeated

variable {turn : Parse (Turn α)} {g : Grammar (Turn α)} (h : turn.Recognizes input g)
  (shorter : ∀ {tokens item more}, g tokens (.again item) more → more.length < tokens.length)

include h shorter

theorem turns_of_repeated {cursor : Nat} {items : List α}
    (hr : (repeated turn input cursor).result = .ok items) :
    Turns g (input.rest cursor) items (input.rest (repeated turn input cursor).cursor) := by
  -- on the tokens that are left, of which every turn but the last takes some
  induction hn : (input.rest cursor).length using Nat.strongRecOn generalizing cursor items with
  | _ n ih =>
    cases ht : (turn input cursor).result with
    | error d =>
      rw [repeated_error ht] at hr
      cases hr
    | ok t =>
      have first := (h cursor t _).1 ⟨ht, rfl⟩
      cases t with
      | finish last =>
        rw [repeated_finish ht] at hr ⊢
        cases hr
        exact .finish first
      | again item =>
        have hlt := shorter first
        have hc := hlt
        rw [Input.length_rest, Input.length_rest] at hc
        rw [repeated_again ht hc] at hr ⊢
        simp only [Outcome.after, result_map, cursor_map] at hr ⊢
        cases ho : (repeated turn input (turn input cursor).cursor).result with
        | error d => rw [ho] at hr; cases hr
        | ok others =>
          rw [ho] at hr
          cases hr
          exact .again first (ih _ (hn ▸ hlt) ho rfl)

theorem repeated_of_turns {tokens more : List Token} {items : List α} {cursor : Nat}
    (ht : Turns g tokens items more) (hc : input.rest cursor = tokens) :
    (repeated turn input cursor).result = .ok items ∧
      input.rest (repeated turn input cursor).cursor = more := by
  induction ht generalizing cursor with
  | finish last =>
    obtain ⟨hr, hm⟩ := (h cursor _ _).2 (hc ▸ last)
    rw [repeated_finish hr]
    exact ⟨rfl, hm⟩
  | again first _ ih =>
    obtain ⟨hr, hm⟩ := (h cursor _ _).2 (hc ▸ first)
    have hlt := shorter first
    rw [← hm, ← hc, Input.length_rest, Input.length_rest] at hlt
    obtain ⟨hr', hm'⟩ := ih hm
    rw [repeated_again hr hlt]
    simp only [Outcome.after, result_map, cursor_map, hr']
    exact ⟨rfl, hm'⟩

theorem Recognizes.repeated : (Parse.repeated turn).Recognizes input (Turns g) := by
  intro cursor items more
  constructor
  · rintro ⟨hr, rfl⟩
    exact turns_of_repeated h shorter hr
  · intro ht
    exact repeated_of_turns h shorter ht rfl

end Repeated

end Parse

end DefLang
