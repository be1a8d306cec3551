import DefLang.Proofs.Grammar.Programs

namespace DefLang

namespace Repetition

variable {α : Type} {turn : Parse (Turn α)} {input : Input} {cursor next : Nat}

/-- A turn that only tells more than another one has the same turns after it. -/
theorem run_of_after (ha : turn.Advances) {events : List Event}
    (h : turn input cursor = (turn input next).after events) :
    (run turn input cursor).items = (run turn input next).items ∧
      (run turn input cursor).last.result = (run turn input next).last.result := by
  have result : (turn input cursor).result = (turn input next).result := by rw [h]; rfl
  have moved : (turn input cursor).cursor = (turn input next).cursor := by rw [h]; rfl
  by_cases hr : ∃ item, (turn input cursor).result = .ok (.again item)
  · obtain ⟨item, hr⟩ := hr
    have hr' := result.symm.trans hr
    rw [items_again ha hr, items_again ha hr', last_again ha hr, last_again ha hr', moved]
    exact ⟨rfl, rfl⟩
  · have hs (item : α) : (turn input cursor).result ≠ .ok (.again item) := fun h => hr ⟨item, h⟩
    obtain ⟨last, last', items⟩ := stop_congr hs result.symm
    rw [last, last', items]
    exact ⟨rfl, result⟩

end Repetition

namespace Input

variable {first second : Input}

def append (first second : Input) : Input :=
  { first with tokens := first.tokens ++ second.tokens }

/-- From a token on, all that comes before the end of the first input is passed over. -/
theorem run_of_passes {input : Input} {stop : Nat} {cursor : Nat} (hc : cursor ≤ stop)
    (passes : ∀ index, cursor ≤ index → index < stop →
      ∃ t, input.tokens[index]? = some t ∧ input.options.passes t) :
    (Repetition.run Parse.programStatement input cursor).items =
        (Repetition.run Parse.programStatement input stop).items ∧
      (Repetition.run Parse.programStatement input cursor).last.result =
        (Repetition.run Parse.programStatement input stop).last.result := by
  induction hn : stop - cursor generalizing cursor with
  | zero =>
    obtain rfl : cursor = stop := by omega
    exact ⟨rfl, rfl⟩
  | succ n ih =>
    obtain ⟨t, ht, hp⟩ := passes cursor (Nat.le_refl _) (by omega)
    have step := Repetition.run_of_after Parse.programStatement_advances
      (Parse.programStatement_of_pass input ht hp)
    rw [step.1, step.2]
    exact ih (by omega) (fun index hi => passes index (by omega)) (by omega)

theorem mem_rest {input : Input} {cursor index : Nat} {t : Token} (hi : cursor ≤ index)
    (ht : input.tokens[index]? = some t) : t ∈ input.rest cursor := by
  apply List.mem_iff_getElem?.2
  refine ⟨index - cursor, ?_⟩
  rw [rest, List.getElem?_drop, Nat.add_sub_of_le hi, Array.getElem?_toList]
  exact ht

theorem getElem?_append_left {index : Nat} (h : index < first.tokens.size) :
    (first.append second).tokens[index]? = first.tokens[index]? :=
  Array.getElem?_append_left h

theorem agrees_append_left (first second : Input) :
    first.Agrees (first.append second) 0 first.tokens.size := by
  refine Agrees.of_tokens rfl (Nat.le_refl _) ?_
  intro index hi
  rw [Nat.zero_add]
  exact getElem?_append_left hi

theorem agrees_append_right (options : second.options = first.options)
    (nonempty : second.tokens ≠ #[]) (n : Nat) :
    second.Agrees (first.append second) first.tokens.size n := by
  have tokens (index : Nat) :
      (first.append second).tokens[first.tokens.size + index]? = second.tokens[index]? := by
    show (first.tokens ++ second.tokens)[first.tokens.size + index]? = _
    rw [Array.getElem?_append_right (Nat.le_add_right _ _), Nat.add_sub_cancel_left]
  obtain ⟨last, hl⟩ : ∃ t, second.tokens.back? = some t := by
    exact Option.ne_none_iff_exists'.1 (mt Array.back?_eq_none_iff.1 nonempty)
  have back : (first.append second).tokens.back? = some last := by
    simp [append, hl]
  refine ⟨by rw [options]; rfl, fun index _ => tokens index, ?_⟩
  intro cursor h0 _
  obtain ⟨index, rfl⟩ := Nat.exists_eq_succ_of_ne_zero (Nat.ne_of_gt h0)
  have current : (first.append second).current? (first.tokens.size + index.succ) =
      second.current? index.succ := tokens index
  cases hc : second.current? index.succ with
  | some t => simp [position, current, hc]
  | none => simp [position, current, hc, back, hl]

/-- Where the first input ends without a fault, the whole goes on with the second one. -/
theorem run_append (second : Input) {cursor : Nat} (hc : cursor ≤ first.tokens.size)
    {turn : Turn Node}
    (ends : (Repetition.run Parse.programStatement first cursor).last.result = .ok turn) :
    let whole := first.append second
    (Repetition.run Parse.programStatement whole cursor).items =
        (Repetition.run Parse.programStatement first cursor).items ++
          (Repetition.run Parse.programStatement whole first.tokens.size).items ∧
      (Repetition.run Parse.programStatement whole cursor).last.result =
        (Repetition.run Parse.programStatement whole first.tokens.size).last.result := by
  intro whole
  have ha := Parse.programStatement_advances
  have agrees := agrees_append_left first second
  induction cursor using ha.induction first with
  | again cursor node hr ih =>
    -- the statement lies within the first input
    have within := Parse.cursor_le_of_again hr
    have reach : (Parse.programStatement first cursor).extent .afterTurn ≤ first.tokens.size := by
      simp only [Outcome.extent, hr]
      exact within
    obtain ⟨result, moved⟩ := Parse.programStatement_shifted agrees reach
    rw [Nat.zero_add] at result moved
    rw [Nat.zero_add] at moved
    have hr' := result.trans hr
    rw [Repetition.last_again ha hr] at ends
    obtain ⟨items, last⟩ := ih within ends
    rw [Repetition.items_again ha hr, Repetition.items_again ha hr', Repetition.last_again ha hr',
      moved, items, last]
    exact ⟨rfl, rfl⟩
  | stop cursor hs =>
    rw [items_of_stop hs, List.nil_append]
    rw [Repetition.run_stop hs] at ends
    cases turn with
    | again node => exact absurd ends (hs node)
    | finish nodes =>
      apply run_of_passes hc
      intro index hi hlt
      have ht := Array.getElem?_eq_getElem hlt
      refine ⟨first.tokens[index], by rw [getElem?_append_left hlt, ht], ?_⟩
      exact (Parse.passes_of_finish ends).2 _ (mem_rest hi ht)

/-- After a program that is complete, another one is read as if it stood alone. -/
theorem program_append {statements : List Node}
    (accepted : first.program.result = .ok (.root statements))
    (complete : first.program.parser.cutShort = false) (options : second.options = first.options)
    (nonempty : second.tokens ≠ #[]) :
    let whole : Input := { first with tokens := first.tokens ++ second.tokens }
    (∀ more cutShort,
      (whole.program.result = .ok (.root (statements ++ more)) ∧
        whole.program.parser.cutShort = cutShort) ↔
      (second.program.result = .ok (.root more) ∧ second.program.parser.cutShort = cutShort)) ∧
    ∀ d, whole.program.result = .error d ↔ second.program.result = .error d := by
  intro whole
  obtain ⟨hroot, met⟩ := program_ok_iff.1 accepted
  obtain rfl := Node.root.inj hroot
  have ends : ∃ turn, first.stop.result = .ok turn := by
    cases hs : first.stop.result with
    | ok turn => exact ⟨turn, rfl⟩
    | error d =>
      have cut := program_cutShort_iff.2 ⟨d, hs, met d hs⟩
      rw [complete] at cut
      cases cut
  obtain ⟨turn, ends⟩ := ends
  obtain ⟨items, last⟩ := run_append second (Nat.zero_le _) ends
  obtain ⟨items', shifted⟩ := run_shifted (agrees_append_right options nonempty _) (Nat.le_refl _)
  have stop : whole.stop.result = second.stop.result := last.trans shifted.result
  have read : whole.statements = first.statements ++ second.statements := by
    rw [← items']
    exact items
  have truncation : whole.options.truncation = second.options.truncation := by rw [options]
  refine ⟨?_, error_congr stop truncation⟩
  intro more cutShort
  rw [cutShort_congr stop truncation, ok_congr stop truncation]
  simp [read]

/-- Unknown tokens on both sides of the seam, and a return without its value at the end. -/
theorem program_append_unfinished :
    let first : Input := ⟨#[
      ⟨.atom, some ":a", "m", 1, 1, 2⟩, ⟨.operator, some "+", "m", 1, 4, 4⟩,
      ⟨.newline, none, "m", 1, 5, 5⟩], "m", .lenient⟩
    let second : Input := ⟨#[
      ⟨.operator, some "-", "m", 2, 1, 1⟩, ⟨.atom, some ":b", "m", 2, 3, 4⟩,
      ⟨.functionReturn, none, "m", 2, 6, 8⟩], "m", .lenient⟩
    let whole : Input := { first with tokens := first.tokens ++ second.tokens }
    whole.program.result = .ok (.root [.atom ":a", .atom ":b"]) ∧
      whole.program.parser.cutShort = true := by
  intro first second whole
  have accepted : first.program.result = .ok (.root [.atom ":a"]) := by cbv
  have complete : first.program.parser.cutShort = false := by cbv
  have options : second.options = first.options := rfl
  have nonempty : second.tokens ≠ #[] := by simp [second]
  have cut : second.program.result = .ok (.root [.atom ":b"]) ∧
      second.program.parser.cutShort = true := ⟨by cbv, by cbv⟩
  exact ((program_append accepted complete options nonempty).1 [.atom ":b"] true).2 cut

end Input

end DefLang
