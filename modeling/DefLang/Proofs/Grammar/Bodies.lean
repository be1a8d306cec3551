import DefLang.Proofs.Grammar.Types

namespace DefLang

namespace Grammar

/-- A statement that is as deep as there is room for, or nothing but what is passed over, up to the
end. -/
def statement (options : Options) (room : Nat) : Grammar (Option Node) := fun tokens s more =>
  match s with
  | some node => node.isWellFormed ∧ node.depth ≤ room ∧ Spells options node.marks tokens more
  | none => 0 < room ∧ (∀ t ∈ tokens, options.passes t) ∧ more = []

def bodyTurn (statement : Grammar (Option Node)) : Grammar (Turn Node) := fun tokens turn more =>
  ∃ node, statement tokens (some node) more ∧
    turn = if node.closes then .finish [node] else .again node

def body (options : Options) (room : Nat) : Grammar (List Node) := fun tokens nodes more =>
  Node.isBody nodes ∧ Node.depths nodes ≤ room ∧ Spells options (Node.allMarks nodes) tokens more

variable {options : Options} {room : Nat} {tokens more : List Token} {nodes : List Node}

theorem body_of_turns (h : Parse.Turns (bodyTurn (statement options room)) tokens nodes more) :
    body options room tokens nodes more := by
  induction h with
  | finish last =>
    obtain ⟨node, ⟨formed, deep, spells⟩, hturn⟩ := last
    split at hturn
    · next hc =>
      cases hturn
      refine ⟨by simp [Node.isBody, formed, hc], Nat.max_le.2 ⟨deep, Nat.zero_le _⟩, ?_⟩
      rwa [Node.allMarks, Node.allMarks, List.append_nil]
    · cases hturn
  | @again _ item _ items _ first _ ih =>
    obtain ⟨node, ⟨formed, deep, spells⟩, hturn⟩ := first
    split at hturn
    · cases hturn
    · next hc =>
      cases hturn
      obtain ⟨closed, deeps, others⟩ := ih
      -- a statement that does not close the body has one after it
      have nodes : Node.isBody (item :: items) := by
        cases items with
        | nil => cases closed
        | cons next items => simp [Node.isBody, formed, hc, closed]
      exact ⟨nodes, Nat.max_le.2 ⟨deep, deeps⟩, Spells.append_iff.2 ⟨_, spells, others⟩⟩

theorem turns_of_body (h : body options room tokens nodes more) :
    Parse.Turns (bodyTurn (statement options room)) tokens nodes more := by
  induction nodes generalizing tokens with
  | nil => cases h.1
  | cons node nodes ih =>
    obtain ⟨formed, deep, spells⟩ := h
    obtain ⟨middle, first, others⟩ := Spells.append_iff.1 spells
    obtain ⟨shallow, shallows⟩ := Nat.max_le.1 deep
    cases nodes with
    | nil =>
      simp only [Node.isBody, Bool.and_eq_true] at formed
      obtain rfl := Spells.nil_iff.1 others
      exact .finish ⟨node, ⟨formed.1, shallow, first⟩, by simp [formed.2]⟩
    | cons next nodes =>
      simp only [Node.isBody, Bool.and_eq_true, Bool.not_eq_true'] at formed
      have turn : bodyTurn (statement options room) tokens (.again node) middle :=
        ⟨node, ⟨formed.1.1, shallow, first⟩, by simp [formed.1.2]⟩
      exact .again turn (ih ⟨formed.2, shallows, others⟩)

theorem turns_bodyTurn_iff :
    Parse.Turns (bodyTurn (statement options room)) tokens nodes more ↔
      body options room tokens nodes more :=
  ⟨body_of_turns, turns_of_body⟩

end Grammar

namespace Parse.Recognizes

variable {input : Input} {α : Type} {statement : Parse (Option Node)} {g : Grammar (Option Node)}

/-- The input may not end where a statement is needed. -/
theorem bind_some (h : statement.Recognizes input g) (f : Node → α) :
    (statement >>= fun
      | some node => Pure.pure (f node)
      | none => Parse.fail .earlyEnd : Parse α).Recognizes input fun tokens a more =>
        ∃ node, g tokens (some node) more ∧ a = f node := by
  have next (s : Option Node) :
      (match s with
        | some node => Pure.pure (f node)
        | none => Parse.fail .earlyEnd : Parse α).Recognizes input fun tokens a more =>
          ∃ node, s = some node ∧ a = f node ∧ more = tokens := by
    cases s with
    | none => exact (Recognizes.fail .earlyEnd).congr fun _ _ _ => by simp
    | some node => exact (Recognizes.pure (f node)).congr fun _ _ _ => by simp
  refine (h.bind next).congr ?_
  intro tokens a more
  constructor
  · intro ⟨_, _, hg, node, hs, ha, hm⟩
    subst hs hm
    exact ⟨node, hg, ha⟩
  · intro ⟨node, hg, ha⟩
    exact ⟨some node, more, hg, node, rfl, ha, rfl⟩

theorem returned (h : statement.Recognizes input g) :
    (Parse.returned statement).Recognizes input fun tokens node more =>
      ∃ value, g tokens (some value) more ∧ node = .functionReturn value :=
  h.bind_some Node.functionReturn

theorem body (h : statement.Recognizes input g)
    (shorter : ∀ {tokens node more}, g tokens (some node) more → more.length < tokens.length) :
    (Parse.body statement).Recognizes input (Turns (Grammar.bodyTurn g)) := by
  have turn : (bodyStatement statement).Recognizes input (Grammar.bodyTurn g) :=
    h.bind_some fun node => if node.closes then Turn.finish [node] else Turn.again node
  apply turn.repeated
  intro tokens item more hg
  obtain ⟨node, hg, _⟩ := hg
  exact shorter hg

end Parse.Recognizes

end DefLang
