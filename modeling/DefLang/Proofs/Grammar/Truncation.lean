import DefLang.Proofs.Grammar.Programs

namespace DefLang

/-- No gap comes after the last mark. -/
theorem Written.exists_getLast? {options : Options} {marks : List Mark} {tokens : List Token}
    (h : Written options marks tokens) :
    tokens = [] ∨ ∃ m t, marks.getLast? = some m ∧ tokens.getLast? = some t ∧ m.fits t := by
  induction h with
  | done => exact .inl rfl
  | @gap m marks t tokens _ rest ih =>
    obtain rfl | ⟨last, u, hm, ht, fits⟩ := ih
    · cases rest
    · exact .inr ⟨last, u, hm, by simp [List.getLast?_cons, ht], fits⟩
  | @token m marks t tokens fits rest ih =>
    obtain rfl | ⟨last, u, hm, ht, fits'⟩ := ih
    · cases rest
      exact .inr ⟨m, t, rfl, rfl, fits⟩
    · refine .inr ⟨last, u, ?_, ?_, fits'⟩
      · simp [List.getLast?_cons, hm]
      · simp [List.getLast?_cons, ht]

namespace Input

/-- What becomes of a program that is cut short plays no part in reading its statements. -/
theorem statements_of_truncation (input : Input) (truncation : Truncation) :
    let other : Input := { input with options := { input.options with truncation } }
    other.statements = input.statements ∧ other.stop.result = input.stop.result := by
  intro other
  have agrees : input.Agrees other 0 (input.stop.extent .afterTurn) := {
    passes := rfl
    tokens := fun index _ => by rw [Nat.zero_add]
    position := fun cursor _ _ => by rw [Nat.zero_add]; rfl }
  obtain ⟨statements, result, _⟩ := run_shifted agrees (Nat.le_refl _)
  exact ⟨statements, result⟩

theorem cutShort_of_isFatal {input : Input}
    (h : ∀ d, input.stop.result = .error d → input.options.IsFatal d) :
    input.program.parser.cutShort = false := by
  rw [← Bool.not_eq_true, program_cutShort_iff]
  intro ⟨d, hs, hf⟩
  exact hf (h d hs)

/-- Up to the last token of the last statement, the input is a program that is not cut short. -/
theorem exists_take_accepted (input : Input) :
    ∃ k ≤ input.tokens.size,
      ({ input with tokens := input.tokens.take k } : Input).program.result =
        .ok (.root input.statements) ∧
      Written input.options (Node.allMarks input.statements) (input.tokens.take k).toList ∧
      (k = 0 ∨ ∃ m t, (Node.allMarks input.statements).getLast? = some m ∧
        input.tokens[k - 1]? = some t ∧ m.fits t) := by
  obtain ⟨formed, rest, front, split, written⟩ := input.exists_spells_statements
  have size : input.tokens.size = front.length + rest.length := by
    rw [← Array.length_toList, split, List.length_append]
  have taken : (input.tokens.take front.length).toList = front := by
    rw [Array.take_eq_extract, Array.toList_extract, List.extract_eq_take_drop, split]
    exact List.take_left
  have spells : Spells input.options (Node.allMarks input.statements)
      (input.tokens.take front.length).toList [] :=
    ⟨front, by rw [taken, List.append_nil], written⟩
  have accepted : ({ input with tokens := input.tokens.take front.length } : Input).program.result =
      .ok (.root input.statements) :=
    (program_of_spells formed spells (List.forall_mem_nil _)).1
  refine ⟨front.length, by omega, accepted, by rwa [taken], ?_⟩
  obtain rfl | ⟨m, t, hm, ht, fits⟩ := written.exists_getLast?
  · exact .inl rfl
  · rw [List.getLast?_eq_getElem?] at ht
    have within := (List.getElem?_eq_some_iff.1 ht).1
    refine .inr ⟨m, t, hm, ?_, fits⟩
    rw [← Array.getElem?_toList, split, List.getElem?_append_left within, ht]

/-- Recovering makes a difference only to programs that are cut short, of which it keeps the
statements before. Those take `k` tokens, the last of which is the last one of the last statement,
and nothing after them was needed to read them. -/
theorem truncations_agree (tokens : Array Token) (file : String) (unknown : UnknownTokens) :
    let failing : Input := ⟨tokens, file, unknown, .fail⟩
    let recovering : Input := ⟨tokens, file, unknown, .recover⟩
    (∀ ast, failing.program.result = .ok ast →
      recovering.program.result = .ok ast ∧ recovering.program.parser.cutShort = false) ∧
    (∀ d, failing.program.result = .error d → d.cause.isGrammatical →
      recovering.program.result = .error d ∧ recovering.program.parser.cutShort = false) ∧
    (∀ d, failing.program.result = .error d → d.cause.isGrammatical = false →
      ∃ nodes, recovering.program.result = .ok (.root nodes) ∧
        recovering.program.parser.cutShort = true ∧
        ∃ k ≤ tokens.size,
          (⟨tokens.take k, file, unknown, .fail⟩ : Input).program.result = .ok (.root nodes) ∧
          Written failing.options (Node.allMarks nodes) (tokens.take k).toList ∧
          (k = 0 ∨ ∃ m t, (Node.allMarks nodes).getLast? = some m ∧
            tokens[k - 1]? = some t ∧ m.fits t)) ∧
    failing.program.parser.cutShort = false := by
  intro failing recovering
  obtain ⟨statements, stop⟩ := failing.statements_of_truncation .recover
  refine ⟨?_, ?_, ?_, cutShort_of_isFatal fun _ _ => .inr rfl⟩
  · intro ast h
    obtain ⟨rfl, hf⟩ := program_ok_iff.1 h
    -- under the failing policy no fault at all was met
    have met (d : Diagnostic) : recovering.stop.result ≠ .error d := by
      rw [stop]
      exact fun hs => hf d hs (.inr rfl)
    rw [← statements]
    exact ⟨program_ok_iff.2 ⟨rfl, fun d hs => absurd hs (met d)⟩,
      cutShort_of_isFatal fun d hs => absurd hs (met d)⟩
  · intro d h hg
    have hs := stop.trans (program_error_iff.1 h).1
    refine ⟨program_error_iff.2 ⟨hs, .inl hg⟩, cutShort_of_isFatal ?_⟩
    intro e he
    rw [hs] at he
    cases he
    exact .inl hg
  · intro d h hg
    have hs := stop.trans (program_error_iff.1 h).1
    have recovers : ¬recovering.options.IsFatal d := by simp [Options.IsFatal, recovering, hg]
    refine ⟨failing.statements, ?_, program_cutShort_iff.2 ⟨d, hs, recovers⟩,
      failing.exists_take_accepted⟩
    rw [← statements]
    refine program_ok_iff.2 ⟨rfl, ?_⟩
    intro e he
    rw [hs] at he
    cases he
    exact recovers

end Input

end DefLang
