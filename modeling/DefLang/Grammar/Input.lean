import DefLang.Event
import DefLang.Grammar.Options

namespace DefLang

/-- What a parser reads. The file is named only where there is no token to point at. -/
structure Input where
  tokens : Array Token
  file : String
  options : Options

namespace Input

/-- The token under a cursor. A cursor counts the tokens that were moved to, so it starts at `0`
before the first one. -/
def current? (input : Input) : Nat → Option Token
  | 0 => none
  | n + 1 => input.tokens[n]?

def peek? (input : Input) (cursor : Nat) : Option Token := input.tokens[cursor]?

def isPastEnd (input : Input) (cursor : Nat) : Bool := input.tokens.size < cursor

/-- Off the tokens the position is that of the last one. -/
def position (input : Input) (cursor : Nat) : Position :=
  match input.current? cursor <|> input.tokens.back? with
  | some t => t.position
  | none => ⟨input.file, 1, 0⟩

/-- The index of the first token from `index` on that is not passed over. -/
def seek (input : Input) (pass : Token → Bool) (index : Nat) : Nat :=
  if h : index < input.tokens.size then
    if pass input.tokens[index] then input.seek pass (index + 1) else index
  else
    index

def arrival (input : Input) (index : Nat) : Event := .advanced index input.tokens[index]?

/-- What is told when the cursor moves over an index. Only layout goes without mention. -/
def passage (input : Input) (index : Nat) : List Event :=
  match input.tokens[index]? with
  | some t => if t.isLayout then [input.arrival index] else [input.arrival index, .skipped index t]
  | none => [input.arrival index]

theorem seek_of_pass {input : Input} {pass : Token → Bool} {index : Nat} {t : Token}
    (ht : input.tokens[index]? = some t) (hp : pass t) :
    input.seek pass index = input.seek pass (index + 1) := by
  obtain ⟨hi, rfl⟩ := Array.getElem?_eq_some_iff.1 ht
  rw [seek, dif_pos hi, if_pos hp]

theorem seek_of_stop {input : Input} {pass : Token → Bool} {index : Nat}
    (h : ∀ t, input.tokens[index]? = some t → pass t = false) :
    input.seek pass index = index := by
  rw [seek]
  split
  · next hi => rw [h _ (Array.getElem?_eq_getElem hi)]; rfl
  · rfl

theorem le_seek (input : Input) (pass : Token → Bool) (index : Nat) :
    index ≤ input.seek pass index := by
  fun_induction input.seek pass index with
  | case1 _ _ _ ih => omega
  | case2 => exact Nat.le_refl _
  | case3 => exact Nat.le_refl _

theorem pass_seek (input : Input) (pass : Token → Bool) (index : Nat) (t : Token)
    (h : input.tokens[input.seek pass index]? = some t) : pass t = false := by
  fun_induction input.seek pass index with
  | case1 _ _ _ ih => exact ih h
  | case2 index hi hp =>
    rw [Array.getElem?_eq_getElem hi, Option.some.injEq] at h
    simpa [h] using hp
  | case3 index hi => simp [Array.getElem?_eq_none (Nat.le_of_not_lt hi)] at h

end Input

end DefLang
