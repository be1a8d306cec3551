import DefLang.Event
import DefLang.Lexer.Progress

namespace DefLang

/-- One call for a token: the lexer before it, the answer, and the lexer it left. -/
structure Step where
  before : Lexer
  answer : Except Diagnostic Token
  after : Lexer

namespace Step

def token? (s : Step) : Option Token :=
  match s.answer with
  | .ok t => if t.kind = .eof then none else some t
  | .error _ => none

/-- A string was read if a quote is what follows the blanks, and only a newline that closes the
string moves such a step on to another line. -/
def isClosedByNewline (s : Step) : Bool :=
  let start :=
    match Lexer.takeWhile Byte.isBlank s.before with
    | .ok _ l | .error _ l => l
  start.current == some Byte.quote && s.after.line != s.before.line

def events (s : Step) : List Event :=
  if s.isClosedByNewline then [.stringClosedByNewline s.before.file s.before.line] else []

end Step

namespace Lexer

def step (l : Lexer) : Step :=
  match readToken l with
  | .ok t l' => ⟨l, .ok t, l'⟩
  | .error d l' => ⟨l, .error d, l'⟩

theorem left_of_step {l : Lexer} (h : l.step.token?.isSome) : l.step.after.left < l.left := by
  unfold step at h ⊢
  split <;> simp_all only [Step.token?]
  · next t l' ht =>
    refine left_lt_of_readToken ht fun he => ?_
    simp [he] at h
  · simp at h

def stepsOnto (taken : List Step) (l : Lexer) : List Step :=
  if l.step.token?.isSome then
    stepsOnto (l.step :: taken) l.step.after
  else
    (l.step :: taken).reverse
termination_by l.left
decreasing_by exact left_of_step ‹_›

/-- The steps up to the end of input or the first error, with that one. -/
def steps (l : Lexer) : List Step := stepsOnto [] l

def stepsFor : Nat → Lexer → List Step
  | 0, _ => []
  | n + 1, l => l.step :: stepsFor n l.step.after

def tokens (l : Lexer) : Except Diagnostic (List Token) :=
  (l.steps.mapM Step.answer).map (·.filter (·.kind ≠ .eof))

/-- What tokenizing tells: each token, and at the end their number, unless it failed. -/
def events (l : Lexer) : List Event :=
  let scanned := l.steps.flatMap fun s => s.events ++ s.token?.toList.map .scanned
  match l.tokens with
  | .ok tokens => scanned ++ [.tokenized l.file tokens.length]
  | .error _ => scanned

theorem stepsOnto_eq (taken : List Step) (l : Lexer) :
    stepsOnto taken l = taken.reverse ++ l.steps := by
  induction hn : l.left using Nat.strongRecOn generalizing taken l with
  | _ n ih =>
    unfold steps
    rw [stepsOnto.eq_def taken, stepsOnto.eq_def []]
    split
    · next h =>
      have hl : l.step.after.left < n := hn ▸ left_of_step h
      rw [ih _ hl (l.step :: taken) _ rfl, ih _ hl [l.step] _ rfl]
      simp
    · simp

theorem steps_eq (l : Lexer) :
    l.steps = l.step :: (if l.step.token?.isSome then l.step.after.steps else []) := by
  rw [steps, stepsOnto]
  split
  · rw [stepsOnto_eq]
    rfl
  · rfl

theorem tokens_eq (l : Lexer) :
    l.tokens =
      match readToken l with
      | .ok t l' => if t.kind = .eof then .ok [] else l'.tokens.map (t :: ·)
      | .error d _ => .error d := by
  unfold tokens
  rw [steps_eq]
  cases h : readToken l with
  | error d l' => simp [step, h, Step.token?, bind, Except.bind, Except.map]
  | ok t l' =>
    by_cases ht : t.kind = .eof
    · simp [step, h, Step.token?, ht, bind, Except.bind, Except.map, pure, Except.pure]
    · simp only [step, h, Step.token?, ht, if_false, Option.isSome_some, if_true, List.mapM_cons]
      cases l'.steps.mapM Step.answer <;>
        simp [bind, Except.bind, Except.map, pure, Except.pure, ht]

end Lexer

end DefLang
