import DefLang.Tree.Basic

namespace DefLang

namespace TypeExpr

def isFunction : TypeExpr → Bool
  | function _ _ => true
  | _ => false

mutual

/-- Arrows are read to the right and names are not resolved, so a type that was read has no function
for an argument, and no resolved name. -/
def isPlain : TypeExpr → Bool
  | named _ resolved => resolved.isNone
  | function argument result => !argument.isFunction && argument.isPlain && result.isPlain
  | struct fields => arePlain fields

def arePlain : List (Field TypeExpr) → Bool
  | [] => true
  | ⟨_, type⟩ :: fields => type.isPlain && arePlain fields

end

mutual

/-- The levels of nesting that reading the type takes. The result of a function is a level deeper
than the function, its argument is not. -/
def depth : TypeExpr → Nat
  | named _ _ => 1
  | function argument result => max argument.depth (1 + result.depth)
  | struct fields => 1 + depths fields

def depths : List (Field TypeExpr) → Nat
  | [] => 0
  | ⟨_, type⟩ :: fields => max type.depth (depths fields)

end

theorem depth_pos (type : TypeExpr) : 0 < type.depth := by
  fun_cases depth type <;> omega

end TypeExpr

namespace Node

mutual

/-- No program stands inside another, signatures are plain, and bodies are closed as they should
be. -/
def isWellFormed : Node → Bool
  | root _ => false
  | atom _ | integer _ | float _ | string _ | definitionEnd => true
  | functionReturn value => value.isWellFormed
  | moduleDefinition _ body => isBody body
  | functionDefinition _ signature body => signature.isPlain && isBody body

/-- A body is closed by its last statement and by none before it. -/
def isBody : List Node → Bool
  | [] => false
  | [last] => last.isWellFormed && last.closes
  | node :: next :: nodes => node.isWellFormed && !node.closes && isBody (next :: nodes)

end

mutual

def depth : Node → Nat
  | root statements => depths statements
  | atom _ | integer _ | float _ | string _ | definitionEnd => 1
  | functionReturn value => 1 + value.depth
  | moduleDefinition _ body => 1 + depths body
  | functionDefinition _ signature body => 1 + max signature.depth (depths body)

def depths : List Node → Nat
  | [] => 0
  | node :: nodes => max node.depth (depths nodes)

end

theorem depths_le_iff {nodes : List Node} {n : Nat} :
    depths nodes ≤ n ↔ ∀ node ∈ nodes, node.depth ≤ n := by
  induction nodes with
  | nil => simp [depths]
  | cons node nodes ih => rw [depths, Nat.max_le, ih, List.forall_mem_cons]

theorem depth_pos {node : Node} (h : node.isWellFormed) : 0 < node.depth := by
  cases node with
  | root statements => cases h
  | _ =>
    rw [depth]
    omega

theorem isBody_iff {nodes : List Node} :
    isBody nodes ↔
      ∃ init last, nodes = init ++ [last] ∧ last.closes ∧ last.isWellFormed ∧
        ∀ node ∈ init, node.isWellFormed ∧ node.closes = false := by
  induction nodes with
  | nil => simp [isBody]
  | cons node nodes ih =>
    cases nodes with
    | nil =>
      constructor
      · intro h
        simp only [isBody, Bool.and_eq_true] at h
        exact ⟨[], node, rfl, h.2, h.1, by simp⟩
      · rintro ⟨init, last, he, hc, hw, _⟩
        cases init with
        | nil =>
          cases he
          simp [isBody, hc, hw]
        | cons a as => simp at he
    | cons next nodes =>
      simp only [isBody, Bool.and_eq_true, Bool.not_eq_true', ih]
      constructor
      · rintro ⟨⟨hw, hc⟩, init, last, he, hl⟩
        refine ⟨node :: init, last, by simp [he], hl.1, hl.2.1, ?_⟩
        intro a ha
        rcases List.mem_cons.1 ha with rfl | ha
        · exact ⟨hw, hc⟩
        · exact hl.2.2 a ha
      · rintro ⟨init, last, he, hc, hw, hi⟩
        cases init with
        | nil => simp at he
        | cons a as =>
          simp only [List.cons_append, List.cons.injEq] at he
          obtain ⟨rfl, he⟩ := he
          exact ⟨hi node (by simp), as, last, he, hc, hw, fun b hb => hi b (by simp [hb])⟩

end Node

end DefLang
