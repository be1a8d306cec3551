import DefLang.Grammar.Repetition

namespace DefLang

/-- The deepest chain of statements and types within one another. -/
def maxNesting : Nat := 256

def Parse.tooDeep {α : Type} : Parse α := fail (.nestingTooDeep maxNesting)

/-- A parser at work on an input. `depth` counts the levels of nesting it is in, and `cutShort`
says that a program was cut short. -/
structure Parser where
  input : Input
  cursor : Nat
  depth : Nat
  cutShort : Bool

/-- The answer to a call on a parser, the parser it leaves, and what was told on the way. -/
structure Reply (α : Type) where
  result : Except Diagnostic α
  parser : Parser
  events : List Event

namespace Parser

def ofInput (input : Input) : Parser := ⟨input, 0, 0, false⟩

def current? (p : Parser) : Option Token := p.input.current? p.cursor

def peek? (p : Parser) : Option Token := p.input.peek? p.cursor

def position (p : Parser) : Position := p.input.position p.cursor

def isPastEnd (p : Parser) : Bool := p.input.isPastEnd p.cursor

def room (p : Parser) : Nat := maxNesting - p.depth

/-- What opens no level of nesting only moves the cursor. -/
def run {α : Type} (p : Parser) (parse : Parse α) : Reply α :=
  let o := parse p.input p.cursor
  ⟨o.result, { p with cursor := o.cursor }, o.events⟩

end Parser

namespace Reply

variable {α : Type}

def outcome (r : Reply α) : Outcome α := ⟨r.result, r.parser.cursor, r.events⟩

def after (events : List Event) (r : Reply α) : Reply α := ⟨r.result, r.parser, events ++ r.events⟩

def leave (r : Reply α) : Reply α :=
  ⟨r.result, { r.parser with depth := r.parser.depth - 1 }, r.events⟩

def goesOn (r : Reply (Turn α)) (p : Parser) : Bool :=
  Turn.goesOn r.result (r.parser.input.tokens.size - r.parser.cursor)
    (p.input.tokens.size - p.cursor)

theorem decreases_of_goesOn {r : Reply (Turn α)} {p : Parser} (h : r.goesOn p) :
    r.parser.input.tokens.size - r.parser.cursor < p.input.tokens.size - p.cursor :=
  Turn.lt_of_goesOn h

end Reply

/-- Runs a call one level of nesting deeper. The level is left again, whatever came of it. -/
def Parser.nested {α : Type} (p : Parser) (call : Parser → Reply α) : Reply α :=
  if p.depth < maxNesting then
    (call { p with depth := p.depth + 1 }).leave
  else
    p.run Parse.tooDeep

theorem Parser.nested_of_lt {α : Type} {p : Parser} {call : Parser → Reply α}
    (h : p.depth < maxNesting) : p.nested call = (call { p with depth := p.depth + 1 }).leave :=
  if_pos h

theorem Parser.nested_of_le {α : Type} {p : Parser} {call : Parser → Reply α}
    (h : maxNesting ≤ p.depth) : p.nested call = p.run Parse.tooDeep :=
  if_neg (Nat.not_lt.2 h)

/-- Parsing that may open levels of nesting. Whoever comes next goes on with the parser as it was
left, and so does whoever is told of a fault. -/
def Descent (α : Type) : Type := Parser → Reply α

namespace Descent

variable {α β : Type}

instance : Monad Descent where
  pure a := fun p => ⟨.ok a, p, []⟩
  bind d next := fun p =>
    let first := d p
    match first.result with
    | .ok a => (next a first.parser).after first.events
    | .error e => ⟨.error e, first.parser, first.events⟩

instance : MonadLift Parse Descent where
  monadLift parse := fun p => p.run parse

theorem bind_ok {d : Descent α} {next : α → Descent β} {p : Parser} {a : α}
    (h : (d p).result = .ok a) : (d >>= next) p = (next a (d p).parser).after (d p).events := by
  simp [Bind.bind, h]

theorem bind_error {d : Descent α} {next : α → Descent β} {p : Parser} {e : Diagnostic}
    (h : (d p).result = .error e) : (d >>= next) p = ⟨.error e, (d p).parser, (d p).events⟩ := by
  simp [Bind.bind, h]

def turnsOnto (turn : Descent (Turn α)) (before : List (Outcome (Turn α))) (p : Parser) :
    Repetition α × Parser :=
  let r := turn p
  if r.goesOn p then
    turnsOnto turn (r.outcome :: before) r.parser
  else
    (⟨before.reverse, r.outcome⟩, r.parser)
termination_by p.input.tokens.size - p.cursor
decreasing_by exact Reply.decreases_of_goesOn ‹_›

def turns (turn : Descent (Turn α)) (p : Parser) : Repetition α × Parser := turnsOnto turn [] p

def repeated (turn : Descent (Turn α)) : Descent (List α) := fun p =>
  let (r, last) := turns turn p
  ⟨r.last.result.map fun _ => r.items, last, r.events⟩

end Descent

/-- The loops of the grammar, which is written once for parsing with a counter and without. -/
class Repeats (m : Type → Type) where
  repeats {α : Type} : m (Turn α) → m (List α)

export Repeats (repeats)

instance : Repeats Parse := ⟨Parse.repeated⟩

instance : Repeats Descent := ⟨Descent.repeated⟩

end DefLang
