import DefLang.Proofs.Grammar.Programs

namespace DefLang.Input

variable {input other : Input} {d : Diagnostic} {n : Nat}

/-- A fault of the grammar stands on a token. -/
theorem exists_index_of_error (h : input.program.result = .error d)
    (hg : d.cause.isGrammatical) :
    ∃ index, input.program.parser.cursor = index + 1 ∧ index < input.tokens.size := by
  have lands := input.stop_lands
  obtain ⟨hr, _⟩ := program_error_iff.1 h
  unfold Outcome.Lands at lands
  rw [hr] at lands
  rw [program_cursor]
  exact exists_index_of_current? (lands.current?_of_isGrammatical hg)

/-- A fault of the grammar depends on nothing after the token it stands on. -/
theorem error_of_agrees (h : input.program.result = .error d) (hg : d.cause.isGrammatical)
    (ha : input.Agrees other 0 input.program.parser.cursor) :
    other.program.result = .error d ∧
      other.program.parser.cursor = input.program.parser.cursor := by
  obtain ⟨hr, _⟩ := program_error_iff.1 h
  have reach : input.stop.extent .afterTurn ≤ input.program.parser.cursor := by
    rw [program_cursor]
    simp only [Outcome.extent, hr, hg, if_true]
    exact Nat.le_refl _
  obtain ⟨_, result, moved⟩ := run_shifted ha reach
  refine ⟨program_error_iff.2 ⟨result.trans hr, .inl hg⟩, ?_⟩
  rw [program_cursor, program_cursor, ← Nat.zero_add input.stop.cursor, ← moved]
  rfl

theorem getElem?_take {index : Nat} (hn : n ≤ input.tokens.size) (hi : index < n) :
    (input.tokens.take n)[index]? = input.tokens[index]? := by
  rw [Array.take_eq_extract, Array.getElem?_extract, if_pos (by omega), Nat.zero_add]

theorem agrees_take_append (hn : n ≤ input.tokens.size) (more : Array Token) :
    input.Agrees { input with tokens := input.tokens.take n ++ more } 0 n := by
  refine Agrees.of_tokens ?_ hn ?_
  · rfl
  · intro index hi
    rw [Nat.zero_add, Array.getElem?_append_left (by simp; omega)]
    exact getElem?_take hn hi

theorem take_agrees (hn : n ≤ input.tokens.size) :
    Agrees { input with tokens := input.tokens.take n } input 0 n := by
  refine Agrees.of_tokens ?_ (by simp [hn]) ?_
  · rfl
  · intro index hi
    rw [Nat.zero_add]
    exact (getElem?_take hn hi).symm

/-- A fault of the grammar stands on the first token that no input can go on with: whatever comes
after it, the fault is the same, and the tokens before it are not at fault. -/
theorem program_faults_first (h : input.program.result = .error d) (hg : d.cause.isGrammatical) :
    ∃ index, input.program.parser.cursor = index + 1 ∧ index < input.tokens.size ∧
      (∀ more : Array Token,
        ({ input with tokens := input.tokens.take (index + 1) ++ more } : Input).program.result =
          .error d) ∧
      ∀ e, ({ input with tokens := input.tokens.take index } : Input).program.result = .error e →
        e.cause.isGrammatical = false := by
  obtain ⟨index, hc, hi⟩ := exists_index_of_error h hg
  refine ⟨index, hc, hi, ?_, ?_⟩
  · intro more
    apply And.left
    apply error_of_agrees h hg
    rw [hc]
    exact agrees_take_append hi more
  · intro e he
    by_contra ungrammatical
    have hg' : e.cause.isGrammatical := by simpa using ungrammatical
    -- a fault of the tokens before would be that of the whole, but it stands further left
    obtain ⟨index', hc', hi'⟩ := exists_index_of_error he hg'
    have before : index' + 1 ≤ index := by
      simp at hi'
      omega
    have whole := (take_agrees (Nat.le_of_lt hi)).mono before
    rw [← hc'] at whole
    have same := (error_of_agrees he hg' whole).2
    omega

/-- Two fields on one line of a module's function, the second one without its colon. -/
theorem program_faults_first_in_struct :
    let input : Input := ⟨#[
      ⟨.definition, some "module", "m", 1, 1, 9⟩, ⟨.declaration, some "A:", "m", 1, 11, 12⟩,
      ⟨.newline, none, "m", 1, 13, 13⟩, ⟨.definition, none, "m", 2, 1, 3⟩,
      ⟨.declaration, some "f:", "m", 2, 5, 6⟩, ⟨.curlyOpen, none, "m", 2, 8, 8⟩,
      ⟨.declaration, some "x:", "m", 2, 9, 10⟩, ⟨.identifier, some "Int", "m", 2, 12, 14⟩,
      ⟨.identifier, some "y", "m", 2, 16, 16⟩, ⟨.curlyClose, none, "m", 2, 17, 17⟩], "m", .lenient⟩
    let d : Diagnostic := ⟨.fieldExpected "y", ⟨"m", 2, 16⟩⟩
    input.program.result = .error d ∧ d.cause.isGrammatical ∧
      ∃ index, input.program.parser.cursor = index + 1 ∧ index < input.tokens.size ∧
        (∀ more : Array Token,
          ({ input with tokens := input.tokens.take (index + 1) ++ more } : Input).program.result =
            .error d) ∧
        ∀ e, ({ input with tokens := input.tokens.take index } : Input).program.result = .error e →
          e.cause.isGrammatical = false := by
  intro input d
  have h : input.program.result = .error d := by cbv
  have hg : d.cause.isGrammatical := rfl
  exact ⟨h, hg, program_faults_first h hg⟩

end DefLang.Input
