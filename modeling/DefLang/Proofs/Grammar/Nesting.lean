import DefLang.Proofs.Grammar.Programs
import DefLang.Proofs.Grammar.Session
import Mathlib.Logic.Function.Iterate

namespace DefLang

namespace Outcome

variable {α : Type}

def IsTooDeep (o : Outcome α) : Prop :=
  ∃ position, o.result = .error ⟨.nestingTooDeep maxNesting, position⟩

/-- The first outcome is the second one, or it comes before that for want of room. -/
def Cuts (o o' : Outcome α) : Prop := o = o' ∨ o.IsTooDeep ∧ o.cursor ≤ o'.cursor

theorem Cuts.after {o o' : Outcome α} (events : List Event) (h : o.Cuts o') :
    (o.after events).Cuts (o'.after events) := by
  rcases h with rfl | h
  · exact .inl rfl
  · exact .inr h

end Outcome

/-- The first parser does what the second one does as long as it has room. -/
structure Parse.Cuts {α : Type} (p q : Parse α) : Prop where
  forward : q.Forward
  cuts (input : Input) (cursor : Nat) : (p input cursor).Cuts (q input cursor)

namespace Parse

variable {α β : Type}

theorem Forward.le_bind {p : Parse α} {f : α → Parse β} (hf : ∀ a, (f a).Forward) (input : Input)
    (cursor : Nat) : (p input cursor).cursor ≤ ((p >>= f) input cursor).cursor := by
  cases hr : (p input cursor).result with
  | error d => rw [bind_error hr]
  | ok a =>
    rw [bind_ok hr]
    exact hf a input _

namespace Cuts

theorem refl {p : Parse α} (h : p.Forward) : p.Cuts p := ⟨h, fun _ _ => .inl rfl⟩

theorem tooDeep {q : Parse α} (h : q.Forward) : Parse.tooDeep.Cuts q :=
  ⟨h, fun input cursor => .inr ⟨⟨_, rfl⟩, h input cursor⟩⟩

theorem bind {p q : Parse α} {f g : α → Parse β} (hp : p.Cuts q) (hf : ∀ a, (f a).Cuts (g a)) :
    (p >>= f).Cuts (q >>= g) where
  forward := hp.forward.bind fun a => (hf a).forward
  cuts input cursor := by
    rcases hp.cuts input cursor with same | ⟨⟨position, deep⟩, before⟩
    · cases hr : (q input cursor).result with
      | error d =>
        rw [bind_error hr, bind_error (by rw [same, hr]), same]
        exact .inl rfl
      | ok a =>
        rw [bind_ok hr, bind_ok (by rw [same, hr]), same]
        exact ((hf a).cuts input _).after _
    · rw [bind_error deep]
      have further := Forward.le_bind (p := q) (fun a => (hf a).forward) input cursor
      exact .inr ⟨⟨position, rfl⟩, before.trans further⟩

theorem repeated {turn turn' : Parse (Turn α)} (ha : turn.Advances) (ha' : turn'.Advances)
    (ht : ∀ n, (turnsWithin turn n).Cuts (turnsWithin turn' n)) :
    (Parse.repeated turn).Cuts (Parse.repeated turn') where
  forward input cursor := by
    rw [repeated_eq_turnsWithin ha' (Nat.lt_succ_self _)]
    exact (ht _).forward input cursor
  cuts input cursor := by
    rw [repeated_eq_turnsWithin ha (Nat.lt_succ_self _),
      repeated_eq_turnsWithin ha' (Nat.lt_succ_self _)]
    exact (ht _).cuts input cursor

theorem congruence : Congruence fun _ _ p q => Cuts p q where
  weaken _ _ h := h
  pure a _ := refl (.pure a)
  bind := bind
  fail _ _ _ := refl (.fail _)
  tell _ _ := refl fun _ _ => Nat.le_refl _
  peek := refl fun _ _ => Nat.le_refl _
  nextPast _ := refl (.nextPast _)
  repeated := repeated

end Cuts

/-- With less room a type is read in the same way, or not to its end. -/
theorem typeExpr_cuts {m n : Nat} (h : m ≤ n) : (typeExpr m).Cuts (typeExpr n) := by
  induction m generalizing n with
  | zero => exact .tooDeep (typeExpr_isLocal n).forward
  | succ m ih =>
    obtain ⟨n, rfl⟩ := Nat.exists_eq_add_one.2 (Nat.lt_of_lt_of_le m.succ_pos h)
    exact Cuts.congruence.typeExpr_succ (ih (Nat.le_of_succ_le_succ h))

theorem statement_cuts {m n : Nat} (h : m ≤ n) : (statement m).Cuts (statement n) := by
  induction m generalizing n with
  | zero => exact .tooDeep (statement_isLocal n).forward
  | succ m ih =>
    obtain ⟨n, rfl⟩ := Nat.exists_eq_add_one.2 (Nat.lt_of_lt_of_le m.succ_pos h)
    have h := Nat.le_of_succ_le_succ h
    exact Cuts.congruence.statement_succ (typeExpr_cuts h) (ih h)
      (.refl opener_isLocal.forward) fun t _ => .refl (.fail _)

section Deep

variable {input : Input} {cursor : Nat} {node : Node} {more : List Token}
  (formed : node.isWellFormed) (spells : Spells input.options node.marks (input.rest cursor) more)

include formed spells

/-- A statement that is written out, but too deep, is not read to its end. -/
theorem statement_of_lt {room : Nat} (deep : room < node.depth) :
    (statement room input cursor).IsTooDeep ∧
      (statement room input cursor).cursor ≤ input.tokens.size := by
  -- with as much room as it takes it is read
  obtain ⟨read, -⟩ := (statement_recognizes input node.depth cursor (some node) more).2
    ⟨formed, Nat.le_refl _, spells⟩
  have within : (statement node.depth input cursor).cursor ≤ input.tokens.size :=
    (statement_leads node.depth input cursor trivial).cursor_le read Standing.token_le_peeking
  rcases (statement_cuts (Nat.le_of_lt deep)).cuts input cursor with same | ⟨tooDeep, before⟩
  · rw [← same] at read
    obtain ⟨-, shallow, -⟩ := (statement_recognizes input room cursor (some node) _).1 ⟨read, rfl⟩
    omega
  · exact ⟨tooDeep, before.trans within⟩

theorem programStatement_of_lt (deep : maxNesting < node.depth) :
    (programStatement input cursor).IsTooDeep ∧
      (programStatement input cursor).cursor ≤ input.tokens.size := by
  obtain ⟨⟨position, tooDeep⟩, within⟩ := statement_of_lt formed spells deep
  rw [programStatement_eq, bind_error tooDeep]
  exact ⟨⟨position, rfl⟩, within⟩

theorem programStatement_of_le (shallow : node.depth ≤ maxNesting) :
    (programStatement input cursor).result = .ok (.again node) ∧
      input.rest (programStatement input cursor).cursor = more :=
  (programStatement_recognizes input cursor (.again node) more).2
    (Grammar.programTurn_again_iff.2 ⟨formed, shallow, spells⟩)

end Deep

/-- Where no statement is left the parser moves past the end. -/
theorem programStatement_of_passes {input : Input} {cursor : Nat}
    (h : ∀ t ∈ input.rest cursor, input.options.passes t) :
    (programStatement input cursor).result = .ok (.finish []) ∧
      input.isPastEnd (programStatement input cursor).cursor := by
  have room : 0 < maxNesting := by decide
  obtain ⟨ends, -⟩ := (programStatement_recognizes input cursor (.finish []) []).2
    (Grammar.programTurn_finish_iff.2 ⟨rfl, room, h, rfl⟩)
  have moved := programStatement_isLocal.extent input cursor
  have lands := programStatement_leads input cursor trivial
  unfold Outcome.Lands at lands
  rw [ends] at lands
  simp only [Outcome.extent, ends, Standing.afterTurn, Standing.ahead] at moved
  obtain ⟨index, hc⟩ : ∃ index, (programStatement input cursor).cursor = index + 1 :=
    Nat.exists_eq_add_one.2 (by omega)
  rw [hc] at lands ⊢
  have absent : input.tokens[index]? = none := lands
  refine ⟨ends, ?_⟩
  rw [Array.getElem?_eq_none_iff] at absent
  exact decide_eq_true (Nat.lt_succ_of_le absent)

end Parse

namespace Input

open Repetition (run)
open Parse (programStatement programStatement_advances)

variable {input : Input} {nodes : List Node}

/-- Statements that are not too deep are read one after another. -/
theorem run_of_shallow {cursor : Nat} {more : List Token}
    (formed : ∀ node ∈ nodes, node.isWellFormed) (shallow : ∀ node ∈ nodes, node.depth ≤ maxNesting)
    (spells : Spells input.options (Node.allMarks nodes) (input.rest cursor) more) :
    ∃ next, input.rest next = more ∧
      (run programStatement input cursor).items =
        nodes ++ (run programStatement input next).items ∧
      (run programStatement input cursor).last = (run programStatement input next).last := by
  induction nodes generalizing cursor with
  | nil => exact ⟨cursor, (Spells.nil_iff.1 spells).symm, rfl, rfl⟩
  | cons node nodes ih =>
    obtain ⟨formed, others⟩ := List.forall_mem_cons.1 formed
    obtain ⟨shallow, shallows⟩ := List.forall_mem_cons.1 shallow
    obtain ⟨middle, first, spells⟩ := Spells.append_iff.1 spells
    obtain ⟨read, rfl⟩ := Parse.programStatement_of_le formed first shallow
    obtain ⟨next, left, items, last⟩ := ih others shallows spells
    rw [Repetition.items_again programStatement_advances read,
      Repetition.last_again programStatement_advances read, items, last]
    exact ⟨next, left, rfl, rfl⟩

theorem stop_eq_of_run {next : Nat}
    (last : (run programStatement input 0).last = (run programStatement input next).last)
    (stops : ∀ node, (programStatement input next).result ≠ .ok (.again node)) :
    input.stop = programStatement input next :=
  last.trans (congrArg Repetition.last (Repetition.run_stop stops))

/-- The run ends at the first statement that is too deep. -/
theorem stop_of_deep {before after : List Node} {deep : Node} {rest : List Token}
    (formed : ∀ node ∈ before ++ deep :: after, node.isWellFormed)
    (spells : Spells input.options (Node.allMarks (before ++ deep :: after)) (input.rest 0) rest)
    (shallow : ∀ node ∈ before, node.depth ≤ maxNesting) (tooDeep : maxNesting < deep.depth) :
    input.statements = before ∧ input.stop.IsTooDeep ∧ input.stop.cursor ≤ input.tokens.size := by
  obtain ⟨first, others⟩ := List.forall_mem_append.1 formed
  obtain ⟨formed, -⟩ := List.forall_mem_cons.1 others
  rw [Node.allMarks_append] at spells
  obtain ⟨middle, spells, later⟩ := Spells.append_iff.1 spells
  obtain ⟨_, stuck, -⟩ := Spells.append_iff.1 later
  obtain ⟨next, rfl, items, last⟩ := run_of_shallow first shallow spells
  obtain ⟨faulty, within⟩ := Parse.programStatement_of_lt formed stuck tooDeep
  have stops : ∀ node, (programStatement input next).result ≠ .ok (.again node) := by
    obtain ⟨position, faulty⟩ := faulty
    simp [faulty]
  rw [statements, items, items_of_stop stops, List.append_nil, stop_eq_of_run last stops]
  exact ⟨rfl, faulty, within⟩

/-- Without such a statement it ends past the last token. -/
theorem isPastEnd_of_shallow {rest : List Token} (formed : ∀ node ∈ nodes, node.isWellFormed)
    (shallow : ∀ node ∈ nodes, node.depth ≤ maxNesting)
    (spells : Spells input.options (Node.allMarks nodes) (input.rest 0) rest)
    (passes : ∀ t ∈ rest, input.options.passes t) : input.isPastEnd input.stop.cursor := by
  obtain ⟨next, rfl, -, last⟩ := run_of_shallow formed shallow spells
  obtain ⟨ends, ended⟩ := Parse.programStatement_of_passes passes
  rwa [stop_eq_of_run last (by simp [ends])]

/-- What becomes of a program that stops for want of room. -/
theorem program_of_tooDeep (h : input.stop.IsTooDeep) :
    (input.options.truncation = .fail →
      input.program.result =
        .error ⟨.nestingTooDeep maxNesting, input.program.parser.position⟩) ∧
    (input.options.truncation = .recover →
      input.program.result = .ok (.root input.statements) ∧
        input.program.parser.cutShort = true) := by
  obtain ⟨position, stop⟩ := h
  have lands := input.stop_lands
  unfold Outcome.Lands at lands
  rw [stop] at lands
  have here : position = input.position input.stop.cursor := lands.1
  constructor
  · intro fail
    rw [program_position, ← here]
    exact program_error_iff.2 ⟨stop, .inr fail⟩
  · intro recover
    have kept : ¬input.options.IsFatal ⟨.nestingTooDeep maxNesting, position⟩ := by
      simp [Options.IsFatal, recover, Cause.isGrammatical]
    refine ⟨program_ok_iff.2 ⟨rfl, ?_⟩, program_cutShort_iff.2 ⟨_, stop, kept⟩⟩
    intro d hd
    rw [stop] at hd
    cases hd
    exact kept

/-- Statements that are written out are read up to the first one that nests too deep, and all of
them if there is none. -/
theorem program_stops_at_depth {front rest : List Token}
    (formed : ∀ node ∈ nodes, node.isWellFormed)
    (tokens : input.tokens.toList = front ++ rest)
    (written : Written input.options (Node.allMarks nodes) front)
    (passes : ∀ t ∈ rest, input.options.passes t) :
    let reply := input.program
    (∀ before deep after, nodes = before ++ deep :: after →
      (∀ node ∈ before, node.depth ≤ maxNesting) → maxNesting < deep.depth →
        (input.options.truncation = .fail →
          reply.result = .error ⟨.nestingTooDeep maxNesting, reply.parser.position⟩) ∧
        (input.options.truncation = .recover →
          reply.result = .ok (.root before) ∧ reply.parser.cutShort = true ∧
            reply.parser.isPastEnd = false)) ∧
    ((∀ node ∈ nodes, node.depth ≤ maxNesting) →
      reply.result = .ok (.root nodes) ∧ reply.parser.cutShort = false ∧
        reply.parser.isPastEnd = true) := by
  intro reply
  have spells : Spells input.options (Node.allMarks nodes) (input.rest 0) rest :=
    ⟨front, tokens, written⟩
  constructor
  · rintro before deep after rfl shallow tooDeep
    obtain ⟨read, stop, within⟩ := stop_of_deep formed spells shallow tooDeep
    obtain ⟨failing, recovering⟩ := program_of_tooDeep stop
    refine ⟨failing, fun recover => ?_⟩
    obtain ⟨result, cut⟩ := recovering recover
    refine ⟨read ▸ result, cut, ?_⟩
    rw [program_isPastEnd]
    exact decide_eq_false (Nat.not_lt.2 within)
  · intro shallow
    obtain ⟨result, complete⟩ :=
      program_of_spells (fun node hn => ⟨formed node hn, shallow node hn⟩) spells passes
    refine ⟨result, complete, ?_⟩
    rw [program_isPastEnd]
    exact isPastEnd_of_shallow formed shallow spells passes

/-- So many returns around one value. -/
theorem iterate_functionReturn (node : Node) (n : Nat) :
    (Node.functionReturn^[n] node).isWellFormed = node.isWellFormed ∧
      (Node.functionReturn^[n] node).depth = n + node.depth ∧
      (Node.functionReturn^[n] node).marks =
        List.replicate n ⟨.statements, .functionReturn, none⟩ ++ node.marks := by
  induction n with
  | zero => simp
  | succ n ih =>
    obtain ⟨formed, depth, marks⟩ := ih
    rw [Function.iterate_succ_apply', Node.isWellFormed, Node.depth, Node.marks]
    refine ⟨formed, by omega, ?_⟩
    rw [marks, List.replicate_succ, List.cons_append]

/-- One return more than there is room for, after an atom. -/
theorem program_stops_at_depth_returns :
    let atom : Token := ⟨.atom, some ":a", "x", 1, 1, 2⟩
    let returned : Token := ⟨.functionReturn, none, "x", 2, 1, 3⟩
    let integer : Token := ⟨.integer, some "1", "x", 2, 5, 5⟩
    let input : Input := ⟨#[atom] ++ Array.replicate 256 returned ++ #[integer], "x", .lenient⟩
    let deep := Node.functionReturn^[256] (.integer "1")
    deep.depth = 257 ∧ input.program.result = .ok (.root [.atom ":a"]) ∧
      input.program.parser.cutShort = true ∧ input.program.parser.isPastEnd = false := by
  intro atom returned integer input deep
  obtain ⟨formed, depth, marks⟩ := iterate_functionReturn (.integer "1") 256
  have all : ∀ node ∈ [.atom ":a", deep], node.isWellFormed :=
    List.forall_mem_cons.2 ⟨rfl, List.forall_mem_singleton.2 formed⟩
  have returns (n : Nat) : Written input.options
      (List.replicate n ⟨.statements, .functionReturn, none⟩) (List.replicate n returned) := by
    induction n with
    | zero => exact .done
    | succ n ih => exact .token rfl ih
  have written : Written input.options (Node.allMarks [.atom ":a", deep])
      (atom :: (List.replicate 256 returned ++ [integer])) := by
    simp only [Node.allMarks, List.append_nil, deep, marks]
    exact .token rfl ((returns 256).append (.token rfl .done))
  have tokens (n : Nat) : (#[atom] ++ Array.replicate n returned ++ #[integer]).toList =
      (atom :: (List.replicate n returned ++ [integer])) ++ [] := by
    simp
  have tooDeep : maxNesting < deep.depth := by
    rw [depth]
    decide
  obtain ⟨cut, -⟩ := @program_stops_at_depth input _ _ _ all (tokens 256) written
    (List.forall_mem_nil _)
  exact ⟨depth, (cut [.atom ":a"] deep [] rfl (by simp [Node.depth, maxNesting]) tooDeep).2 rfl⟩

end Input

end DefLang
