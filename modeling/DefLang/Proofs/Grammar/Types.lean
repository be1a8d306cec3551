import DefLang.Proofs.Grammar.Recognition
import DefLang.Proofs.Grammar.Spelling
import DefLang.Tree.Shape

namespace DefLang

namespace Grammar

def isArrow (t : Option Token) : Bool := t.any (·.kind == .arrow)

/-- A type that is as deep as there is room for. No arrow may follow, it would belong to it. -/
def type (options : Options) (room : Nat) : Grammar TypeExpr := fun tokens type more =>
  type.isPlain ∧ type.depth ≤ room ∧ Spells options type.marks tokens more ∧
    isArrow more.head? = false

def fieldAfter (type : Grammar TypeExpr) (t : Token) : Grammar (Turn (Field TypeExpr)) :=
  fun tokens turn more =>
    (t.kind = .curlyClose ∧ turn = .finish [] ∧ more = tokens) ∨
      (t.kind = .declaration ∧ ∃ e, type tokens e more ∧ turn = .again ⟨t.content, e⟩)

def field (type : Grammar TypeExpr) : Grammar (Turn (Field TypeExpr)) := fun tokens turn more =>
  ∃ t middle, tokens.dropWhile Token.isLayout = t :: middle ∧ fieldAfter type t middle turn more

def arrow (type : Grammar TypeExpr) (argument : TypeExpr) : Grammar TypeExpr :=
  fun tokens whole more =>
    if isArrow tokens.head? then
      ∃ result, type tokens.tail result more ∧ whole = .function argument result
    else
      whole = argument ∧ more = tokens

def argumentAfter (type : Grammar TypeExpr) (t : Token) : Grammar TypeExpr :=
  fun tokens argument more =>
    (t.kind = .identifier ∧ argument = .named t.content none ∧ more = tokens) ∨
      (t.kind = .curlyOpen ∧ ∃ fields, Parse.Turns (field type) tokens fields more ∧
        argument = .struct fields)

end Grammar

namespace Grammar

variable {options : Options} {room : Nat} {tokens more : List Token} {m : Mark} {marks : List Mark}

theorem isArrow_of_spells (h : Spells options (m :: marks) tokens more)
    (hg : m.gap ≠ .statements) (hk : m.kind ≠ .arrow) : isArrow tokens.head? = false := by
  obtain ⟨t, rest, rfl, ht⟩ := h.exists_head hg
  have kind : t.kind ≠ .arrow := by
    rcases ht with ht | ht
    · intro he
      rw [he] at ht
      cases ht
    · rwa [ht]
  simpa [isArrow] using kind

/-- The fields of a struct and the brace that closes it. -/
theorem turns_field_iff {fields : List (Field TypeExpr)} :
    Parse.Turns (field (type options room)) tokens fields more ↔
      TypeExpr.arePlain fields ∧ TypeExpr.depths fields ≤ room ∧
        Spells options (TypeExpr.fieldMarks fields ++ [⟨.layout, .curlyClose, none⟩])
          tokens more := by
  constructor
  · intro h
    induction h with
    | finish last =>
      obtain ⟨t, middle, hd, ⟨hk, hturn, rfl⟩ | ⟨_, _, _, hturn⟩⟩ := last
      · cases hturn
        have closed : Spells options [⟨.layout, .curlyClose, none⟩] _ _ :=
          (Spells.cons_iff rfl).2 ⟨t, _, hd, hk, by simp, Spells.nil_iff.2 rfl⟩
        exact ⟨rfl, Nat.zero_le _, closed⟩
      · cases hturn
    | again first _ ih =>
      obtain ⟨t, middle, hd, ⟨_, hturn, _⟩ | ⟨hk, e, ⟨plain, deep, spells, _⟩, hturn⟩⟩ := first
      · cases hturn
      · cases hturn
        obtain ⟨plains, deeps, others⟩ := ih
        refine ⟨by simp [TypeExpr.arePlain, plain, plains], Nat.max_le.2 ⟨deep, deeps⟩, ?_⟩
        rw [TypeExpr.fieldMarks, List.cons_append, List.cons_append, List.append_assoc]
        exact (Spells.cons_iff rfl).2
          ⟨t, _, hd, hk, by simp, Spells.append_iff.2 ⟨_, spells, others⟩⟩
  · rintro ⟨plain, deep, spells⟩
    induction fields generalizing tokens with
    | nil =>
      obtain ⟨t, middle, hd, hk, _, nothing⟩ := (Spells.cons_iff rfl).1 spells
      exact .finish ⟨t, middle, hd, .inl ⟨hk, rfl, Spells.nil_iff.1 nothing⟩⟩
    | cons field fields ih =>
      obtain ⟨name, e⟩ := field
      rw [TypeExpr.fieldMarks, List.cons_append, List.cons_append, List.append_assoc] at spells
      obtain ⟨t, middle, hd, hk, hc, inner⟩ := (Spells.cons_iff rfl).1 spells
      obtain ⟨rest, first, others⟩ := Spells.append_iff.1 inner
      simp only [TypeExpr.arePlain, Bool.and_eq_true] at plain
      obtain ⟨shallow, shallows⟩ := Nat.max_le.1 deep
      obtain rfl := hc name rfl
      -- another field or the brace comes next, so the type of this one ends where it should
      have follows : isArrow rest.head? = false := by
        cases fields with
        | nil => exact isArrow_of_spells others (by simp) (by simp)
        | cons field fields =>
          rw [TypeExpr.fieldMarks] at others
          exact isArrow_of_spells others (by simp) (by simp)
      exact .again ⟨t, middle, hd, .inr ⟨hk, e, ⟨plain.1, shallow, first, follows⟩, rfl⟩⟩
        (ih plain.2 shallows others)

theorem argument_iff {argument : TypeExpr} :
    (∃ t middle, tokens = t :: middle ∧ argumentAfter (type options room) t middle argument more) ↔
      argument.isFunction = false ∧ argument.isPlain ∧ argument.depth ≤ room + 1 ∧
        Spells options argument.marks tokens more := by
  constructor
  · rintro ⟨t, middle, rfl, ⟨hk, rfl, rfl⟩ | ⟨hk, fields, h, rfl⟩⟩
    · refine ⟨rfl, rfl, Nat.le_add_left 1 room, ?_⟩
      exact Spells.cons_nothing_iff.2 ⟨t, _, rfl, hk, by simp, Spells.nil_iff.2 rfl⟩
    · obtain ⟨plain, deep, spells⟩ := turns_field_iff.1 h
      have deep' : (TypeExpr.struct fields).depth ≤ room + 1 := by
        rw [TypeExpr.depth]
        omega
      exact ⟨rfl, plain, deep', Spells.cons_nothing_iff.2 ⟨t, middle, rfl, hk, by simp, spells⟩⟩
  · rintro ⟨simple, plain, deep, spells⟩
    cases argument with
    | function argument result => cases simple
    | named name resolved =>
      obtain rfl := Option.isNone_iff_eq_none.1 plain
      obtain ⟨t, middle, rfl, hk, hc, nothing⟩ := Spells.cons_nothing_iff.1 spells
      obtain rfl := hc name rfl
      exact ⟨t, middle, rfl, .inl ⟨hk, rfl, Spells.nil_iff.1 nothing⟩⟩
    | struct fields =>
      obtain ⟨t, middle, rfl, hk, _, inner⟩ := Spells.cons_nothing_iff.1 spells
      have shallow : TypeExpr.depths fields ≤ room := by
        rw [TypeExpr.depth] at deep
        omega
      exact ⟨t, middle, rfl, .inr ⟨hk, fields, turns_field_iff.2 ⟨plain, shallow, inner⟩, rfl⟩⟩

/-- The result of a function is a level deeper than its argument. -/
theorem type_succ_iff {whole : TypeExpr} :
    type options (room + 1) tokens whole more ↔
      ∃ argument middle, (argument.isFunction = false ∧ argument.isPlain ∧
        argument.depth ≤ room + 1 ∧ Spells options argument.marks tokens middle) ∧
        arrow (type options room) argument middle whole more := by
  constructor
  · rintro ⟨plain, deep, spells, follows⟩
    -- what is no function is its own argument, with no arrow after it
    have alone : arrow (type options room) whole more whole more := by
      rw [arrow, if_neg (by simp [follows])]
      exact ⟨rfl, rfl⟩
    cases whole with
    | named name resolved => exact ⟨_, more, ⟨rfl, plain, deep, spells⟩, alone⟩
    | struct fields => exact ⟨_, more, ⟨rfl, plain, deep, spells⟩, alone⟩
    | function argument result =>
      obtain ⟨middle, first, spells⟩ := Spells.append_iff.1 spells
      obtain ⟨t, rest, rfl, hk, _, second⟩ := Spells.cons_nothing_iff.1 spells
      simp only [TypeExpr.isPlain, Bool.and_eq_true, Bool.not_eq_true'] at plain
      obtain ⟨⟨simple, plain⟩, plain'⟩ := plain
      obtain ⟨shallow, shallow'⟩ := Nat.max_le.1 deep
      refine ⟨argument, t :: rest, ⟨simple, plain, shallow, first⟩, ?_⟩
      rw [arrow, if_pos (by simp [isArrow, hk])]
      exact ⟨result, ⟨plain', by omega, second, follows⟩, rfl⟩
  · rintro ⟨argument, middle, ⟨simple, plain, deep, spells⟩, h⟩
    unfold arrow at h
    split at h
    · next ha =>
      obtain ⟨result, ⟨plain', deep', spells', follows⟩, rfl⟩ := h
      obtain ⟨t, ht, hk⟩ := (Option.any_eq_true _ _).1 ha
      obtain ⟨rest, rfl⟩ := List.head?_eq_some_iff.1 ht
      have arrow : Spells options (⟨.nothing, .arrow, none⟩ :: result.marks) (t :: rest) more :=
        Spells.cons_nothing_iff.2 ⟨t, rest, rfl, eq_of_beq hk, by simp, spells'⟩
      refine ⟨by simp [TypeExpr.isPlain, simple, plain, plain'], ?_,
        Spells.append_iff.2 ⟨_, spells, arrow⟩, follows⟩
      rw [TypeExpr.depth]
      omega
    · next ha =>
      obtain ⟨rfl, rfl⟩ := h
      exact ⟨plain, deep, spells, by simpa using ha⟩

end Grammar

namespace Parse.Recognizes

variable {input : Input} {type : Parse TypeExpr} {g : Grammar TypeExpr}

theorem field (h : type.Recognizes input g) :
    (Parse.field type).Recognizes input (Grammar.field g) := by
  refine (Recognizes.requirePast Token.isLayout).bind ?_
  intro t
  split
  · next hk =>
    refine (Recognizes.pure (Turn.finish [])).congr ?_
    intro tokens turn more
    simp [Grammar.fieldAfter, hk]
  · next hk =>
    refine (h.bind_pure fun e => Turn.again (Field.mk t.content e)).congr ?_
    intro tokens turn more
    simp [Grammar.fieldAfter, hk]
  · next hc hd =>
    refine (Recognizes.fail (.fieldExpected t.mention)).congr ?_
    intro tokens turn more
    refine iff_of_false id ?_
    rintro (⟨hk, _⟩ | ⟨hk, _⟩)
    · exact hc hk
    · exact hd hk

theorem arrow (h : type.Recognizes input g) (argument : TypeExpr) :
    (Parse.arrow type argument).Recognizes input (Grammar.arrow g argument) := by
  have found := Recognizes.next.bind_of_ok fun _ => h.bind_pure (TypeExpr.function argument)
  apply Recognizes.peek.bind_of_ok (h := fun o tokens whole more =>
    if Grammar.isArrow o then
      ∃ result, g tokens.tail result more ∧ whole = .function argument result
    else whole = argument ∧ more = tokens)
  intro o
  show (ite (Grammar.isArrow o) _ _ : Parse TypeExpr).Recognizes _ _
  split
  · exact found
  · exact Recognizes.pure argument

/-- The argument that a token begins, and what an arrow adds to it. -/
theorem argumentAfter (h : type.Recognizes input g)
    (shorter : ∀ {tokens e more}, g tokens e more → more.length ≤ tokens.length) (t : Token) :
    (match t.kind with
      | .identifier => Parse.arrow type (.named t.content none)
      | .curlyOpen => do
        let fields ← Parse.repeated (Parse.field type)
        Parse.arrow type (.struct fields)
      | _ => Parse.fail (.typeExpected t.mention) : Parse TypeExpr).Recognizes input
      fun tokens whole more => ∃ argument middle,
        Grammar.argumentAfter g t tokens argument middle ∧
          Grammar.arrow g argument middle whole more := by
  split
  · next hk =>
    refine (h.arrow _).congr ?_
    intro tokens whole more
    constructor
    · intro h
      exact ⟨_, tokens, .inl ⟨hk, rfl, rfl⟩, h⟩
    · rintro ⟨_, _, ⟨_, rfl, rfl⟩ | ⟨hk', _⟩, h⟩
      · exact h
      · rw [hk] at hk'
        cases hk'
  · next hk =>
    have turns :
        (Parse.repeated (Parse.field type)).Recognizes input (Turns (Grammar.field g)) := by
      apply h.field.repeated
      rintro tokens item more ⟨t, middle, hd, ⟨_, hturn, _⟩ | ⟨_, e, he, _⟩⟩
      · cases hturn
      · exact Nat.lt_of_le_of_lt (shorter he) (length_lt_of_dropWhile hd)
    refine (turns.bind fun fields => h.arrow (.struct fields)).congr ?_
    intro tokens whole more
    constructor
    · rintro ⟨fields, middle, hf, h⟩
      exact ⟨_, middle, .inr ⟨hk, fields, hf, rfl⟩, h⟩
    · rintro ⟨_, middle, ⟨hk', _⟩ | ⟨_, fields, hf, rfl⟩, h⟩
      · rw [hk] at hk'
        cases hk'
      · exact ⟨fields, middle, hf, h⟩
  · next hi hc =>
    refine (Recognizes.fail (.typeExpected t.mention)).congr ?_
    intro tokens whole more
    refine iff_of_false id ?_
    rintro ⟨_, _, ⟨hk, _⟩ | ⟨hk, _⟩, _⟩
    · exact hi hk
    · exact hc hk

/-- A type is read as its argument and what an arrow adds to it. -/
theorem typeExpr (room : Nat) :
    (Parse.typeExpr room).Recognizes input (Grammar.type input.options room) := by
  induction room with
  | zero =>
    refine (Recognizes.fail (.nestingTooDeep maxNesting)).congr ?_
    intro tokens e more
    refine iff_of_false id ?_
    rintro ⟨_, deep, _⟩
    have := e.depth_pos
    omega
  | succ room ih =>
    have shorter {tokens e more} (h : Grammar.type input.options room tokens e more) :
        more.length ≤ tokens.length := h.2.2.1.length_le
    refine (Recognizes.requireNext.bind (ih.argumentAfter shorter)).congr ?_
    intro tokens whole more
    simp only [Grammar.type_succ_iff, ← Grammar.argument_iff]
    constructor
    · rintro ⟨t, middle, rfl, argument, rest, ha, h⟩
      exact ⟨argument, rest, ⟨t, middle, rfl, ha⟩, h⟩
    · rintro ⟨argument, rest, ⟨t, middle, rfl, ha⟩, h⟩
      exact ⟨t, middle, rfl, argument, rest, ha, h⟩

end Parse.Recognizes

end DefLang
