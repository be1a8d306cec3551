import DefLang.Proofs.Grammar.Bodies
import Mathlib.Data.List.TakeWhile

namespace DefLang

theorem Token.value_eq_some {t : Token} {v : String} (h : t.content = v) (hv : v ≠ "") :
    t.value = some v := by
  cases ht : t.value with
  | none =>
    rw [content, ht] at h
    exact absurd h.symm hv
  | some w =>
    rw [content, ht] at h
    exact congrArg some h

namespace Grammar

def headerEnd : Grammar Unit := fun tokens _ more =>
  ∃ t, tokens.dropWhile Token.isComment = t :: more ∧ t.kind = .newline

def beginsType (t : Option Token) : Bool := t.any (·.kind.beginsType)

variable (statement : Grammar (Option Node)) (type : Grammar TypeExpr)

def functionOf (name : String) : Grammar Node := fun tokens node more =>
  ∃ signature middle line nodes, type tokens signature middle ∧ headerEnd middle () line ∧
    Parse.Turns (bodyTurn statement) line nodes more ∧
      node = .functionDefinition name signature nodes

def moduleOf (kind : Option String) (name : String) : Grammar Node := fun tokens node more =>
  ∃ line nodes, headerEnd tokens () line ∧ kind = some "module" ∧
    Parse.Turns (bodyTurn statement) line nodes more ∧ node = .moduleDefinition name nodes

def definitionOf (kind : Option String) (name : String) : Grammar Node := fun tokens node more =>
  if beginsType tokens.head? then functionOf statement type name tokens node more
  else moduleOf statement kind name tokens node more

def definition (kind : Option String) : Grammar Node := fun tokens node more =>
  ∃ t middle, tokens = t :: middle ∧ t.kind = .declaration ∧
    definitionOf statement type kind t.content middle node more

def statementAt (t : Token) : Grammar Node := fun tokens node more =>
  match t.kind with
  | .atom => node = .atom t.content ∧ more = tokens
  | .integer => node = .integer t.content ∧ more = tokens
  | .float => node = .float t.content ∧ more = tokens
  | .string => node = .string t.content ∧ more = tokens
  | .definitionEnd => node = .definitionEnd ∧ more = tokens
  | .functionReturn => ∃ value, statement tokens (some value) more ∧ node = .functionReturn value
  | .definition => definition statement type t.value tokens node more
  | _ => False

def statementFrom : Option Token → Grammar (Option Node)
  | some t => fun tokens s more =>
    ∃ node, statementAt statement type t tokens node more ∧ s = some node
  | none => fun tokens s more => s = none ∧ more = tokens

end Grammar

namespace Grammar

variable {options : Options} {room : Nat} {tokens more : List Token} {node : Node} {name : String}
  {kind : Option String}

theorem exists_beginsType_mark : ∀ e : TypeExpr, ∃ kind content marks,
    e.marks = ⟨.nothing, kind, content⟩ :: marks ∧ kind.beginsType
  | .named name _ => ⟨.identifier, some name, [], rfl, rfl⟩
  | .function argument result => by
    obtain ⟨kind, content, marks, he, hk⟩ := exists_beginsType_mark argument
    exact ⟨kind, content, _, by rw [TypeExpr.marks, he, List.cons_append], hk⟩
  | .struct _ => ⟨.curlyOpen, none, _, rfl, rfl⟩

theorem beginsType_of_spells {e : TypeExpr} {marks : List Mark}
    (h : Spells options (e.marks ++ marks) tokens more) : beginsType tokens.head? := by
  obtain ⟨kind, content, others, he, hk⟩ := exists_beginsType_mark e
  rw [he] at h
  obtain ⟨t, rest, rfl, ht, _⟩ := Spells.cons_nothing_iff.1 h
  simpa [beginsType, ht] using hk

theorem headerEnd_spells_iff {marks : List Mark} :
    Spells options (⟨.comments, .newline, none⟩ :: marks) tokens more ↔
      ∃ line, headerEnd tokens () line ∧ Spells options marks line more := by
  rw [Spells.cons_iff rfl]
  constructor
  · intro ⟨t, line, hd, hk, _, spells⟩
    exact ⟨line, ⟨t, hd, hk⟩, spells⟩
  · intro ⟨line, ⟨t, hd, hk⟩, spells⟩
    exact ⟨t, line, hd, hk, by simp, spells⟩

theorem not_beginsType_of_spells {marks : List Mark}
    (h : Spells options (⟨.comments, .newline, none⟩ :: marks) tokens more) :
    beginsType tokens.head? = false := by
  obtain ⟨t, rest, rfl, ht⟩ := h.exists_head nofun
  cases hk : t.kind <;> simp_all [beginsType, Kind.isLayout, Kind.beginsType]

theorem functionOf_iff :
    functionOf (statement options room) (type options room) name tokens node more ↔
      ∃ signature nodes, node = .functionDefinition name signature nodes ∧ signature.isPlain ∧
        signature.depth ≤ room ∧ Node.isBody nodes ∧ Node.depths nodes ≤ room ∧
        Spells options (signature.marks ++ ⟨.comments, .newline, none⟩ :: Node.allMarks nodes)
          tokens more := by
  constructor
  · intro ⟨signature, middle, line, nodes, ⟨plain, deep, first, _⟩, hl, hn, he⟩
    obtain ⟨formed, deeps, others⟩ := turns_bodyTurn_iff.1 hn
    have header := headerEnd_spells_iff.2 ⟨line, hl, others⟩
    exact ⟨signature, nodes, he, plain, deep, formed, deeps,
      Spells.append_iff.2 ⟨middle, first, header⟩⟩
  · intro ⟨signature, nodes, he, plain, deep, formed, deeps, spells⟩
    obtain ⟨middle, first, header⟩ := Spells.append_iff.1 spells
    obtain ⟨line, hl, others⟩ := headerEnd_spells_iff.1 header
    have follows := isArrow_of_spells header nofun nofun
    exact ⟨signature, middle, line, nodes, ⟨plain, deep, first, follows⟩, hl,
      turns_bodyTurn_iff.2 ⟨formed, deeps, others⟩, he⟩

theorem moduleOf_iff :
    moduleOf (statement options room) kind name tokens node more ↔
      ∃ nodes, node = .moduleDefinition name nodes ∧ kind = some "module" ∧ Node.isBody nodes ∧
        Node.depths nodes ≤ room ∧
        Spells options (⟨.comments, .newline, none⟩ :: Node.allMarks nodes) tokens more := by
  constructor
  · intro ⟨line, nodes, hl, hk, hn, he⟩
    obtain ⟨formed, deeps, spells⟩ := turns_bodyTurn_iff.1 hn
    exact ⟨nodes, he, hk, formed, deeps, headerEnd_spells_iff.2 ⟨line, hl, spells⟩⟩
  · intro ⟨nodes, he, hk, formed, deeps, spells⟩
    obtain ⟨line, hl, spells⟩ := headerEnd_spells_iff.1 spells
    exact ⟨line, nodes, hl, hk, turns_bodyTurn_iff.2 ⟨formed, deeps, spells⟩, he⟩

/-- The token after the name tells a signature from the end of the line. -/
theorem definitionOf_iff :
    definitionOf (statement options room) (type options room) kind name tokens node more ↔
      functionOf (statement options room) (type options room) name tokens node more ∨
        moduleOf (statement options room) kind name tokens node more := by
  unfold definitionOf
  constructor
  · intro h
    split at h
    · exact .inl h
    · exact .inr h
  · -- what spells a signature never spells the end of the line
    intro h
    rcases h with h | h
    · obtain ⟨_, _, _, _, _, _, _, spells⟩ := functionOf_iff.1 h
      rwa [if_pos (beginsType_of_spells spells)]
    · obtain ⟨_, _, _, _, _, spells⟩ := moduleOf_iff.1 h
      rwa [if_neg (by simp [not_beginsType_of_spells spells])]

theorem statement_of_statementAt {t : Token} {middle : List Token}
    (hd : tokens.dropWhile options.passes = t :: middle)
    (h : statementAt (statement options room) (type options room) t middle node more) :
    statement options (room + 1) tokens (some node) more := by
  unfold statementAt at h
  cases hk : t.kind with
  | atom | integer | float | string | definitionEnd =>
    rw [hk] at h
    obtain ⟨rfl, rfl⟩ := h
    have nothing : Spells options [] more more := Spells.nil_iff.2 rfl
    exact ⟨rfl, Nat.le_add_left 1 room, (Spells.cons_iff rfl).2 ⟨t, _, hd, hk, by simp, nothing⟩⟩
  | functionReturn =>
    rw [hk] at h
    obtain ⟨value, ⟨formed, deep, spells⟩, rfl⟩ := h
    refine ⟨formed, ?_, (Spells.cons_iff rfl).2 ⟨t, _, hd, hk, by simp, spells⟩⟩
    rw [Node.depth]
    omega
  | definition =>
    rw [hk] at h
    obtain ⟨d, rest, rfl, hdk, h⟩ := h
    rcases definitionOf_iff.1 h with h | h
    · obtain ⟨signature, nodes, rfl, plain, deep, formed, deeps, spells⟩ := functionOf_iff.1 h
      have named : Spells options (⟨.nothing, .declaration, some d.content⟩ :: (signature.marks ++
          ⟨.comments, .newline, none⟩ :: Node.allMarks nodes)) (d :: rest) more :=
        Spells.cons_nothing_iff.2 ⟨d, rest, rfl, hdk, by simp, spells⟩
      refine ⟨by simp [Node.isWellFormed, plain, formed], ?_,
        (Spells.cons_iff rfl).2 ⟨t, _, hd, hk, by simp, named⟩⟩
      rw [Node.depth]
      omega
    · obtain ⟨nodes, rfl, hv, formed, deeps, spells⟩ := moduleOf_iff.1 h
      have named : Spells options (⟨.nothing, .declaration, some d.content⟩ ::
          ⟨.comments, .newline, none⟩ :: Node.allMarks nodes) (d :: rest) more :=
        Spells.cons_nothing_iff.2 ⟨d, rest, rfl, hdk, by simp, spells⟩
      have word : t.content = "module" := by rw [Token.content, hv, Option.getD_some]
      refine ⟨formed, ?_, (Spells.cons_iff rfl).2 ⟨t, _, hd, hk, by simp [word], named⟩⟩
      rw [Node.depth]
      omega
  | _ =>
    rw [hk] at h
    cases h

theorem statementAt_of_statement (h : statement options (room + 1) tokens (some node) more) :
    ∃ t middle, tokens.dropWhile options.passes = t :: middle ∧
      statementAt (statement options room) (type options room) t middle node more := by
  obtain ⟨formed, deep, spells⟩ := h
  cases node with
  | root nodes => cases formed
  | atom name | integer name | float name | string name =>
    obtain ⟨t, middle, hd, hk, hc, nothing⟩ := (Spells.cons_iff rfl).1 spells
    obtain rfl := hc name rfl
    refine ⟨t, middle, hd, ?_⟩
    rw [statementAt, hk]
    exact ⟨rfl, Spells.nil_iff.1 nothing⟩
  | definitionEnd =>
    obtain ⟨t, middle, hd, hk, _, nothing⟩ := (Spells.cons_iff rfl).1 spells
    refine ⟨t, middle, hd, ?_⟩
    rw [statementAt, hk]
    exact ⟨rfl, Spells.nil_iff.1 nothing⟩
  | functionReturn value =>
    obtain ⟨t, middle, hd, hk, _, spells⟩ := (Spells.cons_iff rfl).1 spells
    rw [Node.depth] at deep
    refine ⟨t, middle, hd, ?_⟩
    rw [statementAt, hk]
    exact ⟨value, ⟨formed, by omega, spells⟩, rfl⟩
  | moduleDefinition name nodes =>
    obtain ⟨t, middle, hd, hk, hc, named⟩ := (Spells.cons_iff rfl).1 spells
    obtain ⟨d, rest, rfl, hdk, hdc, body⟩ := Spells.cons_nothing_iff.1 named
    obtain rfl := hdc name rfl
    have module : t.value = some "module" := Token.value_eq_some (hc "module" rfl) (by decide)
    have deeps : Node.depths nodes ≤ room := by
      rw [Node.depth] at deep
      omega
    refine ⟨t, d :: rest, hd, ?_⟩
    rw [statementAt, hk]
    refine ⟨d, rest, rfl, hdk, definitionOf_iff.2 (.inr (moduleOf_iff.2 ?_))⟩
    exact ⟨nodes, rfl, module, formed, deeps, body⟩
  | functionDefinition name signature nodes =>
    obtain ⟨t, middle, hd, hk, _, named⟩ := (Spells.cons_iff rfl).1 spells
    obtain ⟨d, rest, rfl, hdk, hdc, body⟩ := Spells.cons_nothing_iff.1 named
    obtain rfl := hdc name rfl
    simp only [Node.isWellFormed, Bool.and_eq_true] at formed
    have deeps : signature.depth ≤ room ∧ Node.depths nodes ≤ room := by
      rw [Node.depth] at deep
      omega
    refine ⟨t, d :: rest, hd, ?_⟩
    rw [statementAt, hk]
    refine ⟨d, rest, rfl, hdk, definitionOf_iff.2 (.inl (functionOf_iff.2 ?_))⟩
    exact ⟨signature, nodes, rfl, formed.1, deeps.1, formed.2, deeps.2, body⟩

theorem statement_succ_iff {s : Option Node} :
    statement options (room + 1) tokens s more ↔
      statementFrom (statement options room) (type options room)
        (tokens.dropWhile options.passes).head? (tokens.dropWhile options.passes).tail s more := by
  cases s with
  | some node =>
    constructor
    · intro h
      obtain ⟨t, middle, hd, h⟩ := statementAt_of_statement h
      rw [hd]
      exact ⟨node, h, rfl⟩
    · intro h
      cases hd : tokens.dropWhile options.passes with
      | nil =>
        rw [hd] at h
        cases h.1
      | cons t middle =>
        rw [hd] at h
        obtain ⟨_, h, ⟨⟩⟩ := h
        exact statement_of_statementAt hd h
  | none =>
    rw [statement, ← List.dropWhile_eq_nil_iff]
    cases tokens.dropWhile options.passes <;> simp [statementFrom]

end Grammar

namespace Parse.Recognizes

variable {input : Input} {statement : Parse (Option Node)} {g : Grammar (Option Node)}
  {type : Parse TypeExpr} {e : Grammar TypeExpr}

theorem headerEnd : Parse.headerEnd.Recognizes input Grammar.headerEnd := by
  refine ((Recognizes.requirePast Token.isComment).bind fun t =>
    Recognizes.unless_fail (t.kind = .newline) (.invalidDefinition t.mention)).congr ?_
  intro tokens u more
  constructor
  · intro ⟨t, _, hd, hk, hm⟩
    subst hm
    exact ⟨t, hd, hk⟩
  · intro ⟨t, hd, hk⟩
    exact ⟨t, more, hd, hk, rfl⟩

theorem functionOf (hb : (Parse.body statement).Recognizes input (Turns (Grammar.bodyTurn g)))
    (ht : type.Recognizes input e) (name : String) :
    (do
      let signature ← type
      Parse.headerEnd
      Parse.tell (.functionBody name)
      return .functionDefinition name signature (← Parse.body statement) : Parse Node).Recognizes
      input (Grammar.functionOf g e name) := by
  refine (ht.bind fun signature => Recognizes.headerEnd.bind fun _ =>
    (Recognizes.tell (.functionBody name)).bind_of_ok fun _ =>
      hb.bind_pure (Node.functionDefinition name signature)).congr ?_
  intro tokens node more
  constructor
  · intro ⟨signature, middle, h, _, line, hl, nodes, hn, he⟩
    exact ⟨signature, middle, line, nodes, h, hl, hn, he⟩
  · intro ⟨signature, middle, line, nodes, h, hl, hn, he⟩
    exact ⟨signature, middle, h, (), line, hl, nodes, hn, he⟩

theorem moduleOf (hb : (Parse.body statement).Recognizes input (Turns (Grammar.bodyTurn g)))
    (kind : Option String) (name : String) :
    (do
      Parse.headerEnd
      if kind = some "module" then
        Parse.tell (.moduleBody name)
        return .moduleDefinition name (← Parse.body statement)
      else
        Parse.fail (.unsupportedDefinition (kind.getD "def")) : Parse Node).Recognizes
      input (Grammar.moduleOf g kind name) := by
  have module := (Recognizes.tell (.moduleBody name)).bind_of_ok fun _ =>
    hb.bind_pure (Node.moduleDefinition name)
  by_cases hk : kind = some "module"
  · simp only [hk, if_true]
    refine (Recognizes.headerEnd.bind fun _ => module).congr ?_
    intro tokens node more
    constructor
    · intro ⟨_, line, hl, nodes, hn, he⟩
      exact ⟨line, nodes, hl, rfl, hn, he⟩
    · intro ⟨line, nodes, hl, _, hn, he⟩
      exact ⟨(), line, hl, nodes, hn, he⟩
  · simp only [hk, if_false]
    refine (Recognizes.headerEnd.bind fun _ => Recognizes.fail _).congr ?_
    intro tokens node more
    simp [Grammar.moduleOf, hk]

theorem definition (hb : (Parse.body statement).Recognizes input (Turns (Grammar.bodyTurn g)))
    (ht : type.Recognizes input e) (kind : Option String) :
    (Parse.definition statement type kind).Recognizes input (Grammar.definition g e kind) := by
  apply Recognizes.requireNext.bind
  intro t
  apply Recognizes.ite_fail (t.kind = .declaration)
  apply Recognizes.peek.bind_of_ok (h := fun o tokens node more =>
    if Grammar.beginsType o then Grammar.functionOf g e t.content tokens node more
    else Grammar.moduleOf g kind t.content tokens node more)
  intro o
  show (ite (Grammar.beginsType o) _ _ : Parse Node).Recognizes _ _
  split
  · exact hb.functionOf ht t.content
  · exact hb.moduleOf kind t.content

theorem statementAt (hs : statement.Recognizes input g) (ht : type.Recognizes input e)
    (shorter : ∀ {tokens node more}, g tokens (some node) more → more.length < tokens.length)
    (t : Token) :
    (Parse.statementAt statement type t).Recognizes input (Grammar.statementAt g e t) := by
  unfold Parse.statementAt Grammar.statementAt
  cases hk : t.kind with
  | atom | integer | float | string | definitionEnd => exact Recognizes.pure _
  | functionReturn => exact hs.returned
  | definition => exact (hs.body shorter).definition ht t.value
  | _ => exact Recognizes.fail _

end Parse.Recognizes

theorem Grammar.length_lt_of_statement {options : Options} {room : Nat} {tokens more : List Token}
    {node : Node} (h : statement options room tokens (some node) more) :
    more.length < tokens.length := by
  obtain ⟨formed, _, spells⟩ := h
  apply spells.length_lt
  apply Node.marks_ne_nil
  rintro statements rfl
  cases formed

/-- A statement is read exactly if the tokens spell one that is well formed and not too deep. -/
theorem Parse.statement_recognizes (input : Input) (room : Nat) :
    (Parse.statement room).Recognizes input (Grammar.statement input.options room) := by
  induction room with
  | zero =>
    refine (Recognizes.fail (.nestingTooDeep maxNesting)).congr ?_
    intro tokens s more
    refine iff_of_false id ?_
    cases s with
    | none => exact fun h => by cases h.1
    | some node =>
      intro ⟨formed, deep, _⟩
      have := Node.depth_pos formed
      omega
  | succ room ih =>
    have begun (t : Token) :=
      ih.statementAt (Recognizes.typeExpr room) Grammar.length_lt_of_statement t
    refine (Recognizes.options.bind_of_ok fun o =>
      (Recognizes.nextPast o.passes).bind_of_ok fun next => ?_).congr fun tokens s more =>
        Grammar.statement_succ_iff.symm
    cases next with
    | some t =>
      dsimp only
      rw [map_eq_pure_bind]
      exact (begun t).bind_pure some
    | none => exact Recognizes.pure none

end DefLang
