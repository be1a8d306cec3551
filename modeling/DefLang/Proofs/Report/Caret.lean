import DefLang.Proofs.Grammar.FaultPlace
import DefLang.Proofs.Lexer.AsciiEdge
import DefLang.Proofs.Report.Excerpt

namespace DefLang

open Text.Utf8 (encode)

variable {file source : String} {d : Diagnostic}

/-- The faults of a source that are about one of its bytes: those of the lexer but at the end of
input, and those of the grammar, under whatever options. -/
def HasFault (file source : String) (d : Diagnostic) : Prop :=
  (Lexer.tokensOf file (encode source) = .error d ∧
      ∃ token, d.cause = .invalidToken token ∧ token ≠ "") ∨
    ∃ input : Input, Lexer.tokensOf file (encode source) = .ok input.tokens.toList ∧
      input.program.result = .error d ∧ d.cause.isGrammatical

/-- The byte that a fault is about: the one that the lexer refuses, or the first one of the token
that the parser stands on. -/
inductive FailsAt (file source : String) (offset : Nat) : Diagnostic → Prop
  | refused {b : Byte} (byte : (encode source)[offset]? = some b)
      (fault : Lexer.tokensOf file (encode source) =
        .error ⟨.invalidToken b.toChar.toString,
          Position.after file ((encode source).take offset)⟩) :
      FailsAt file source offset
        ⟨.invalidToken b.toChar.toString, Position.after file ((encode source).take offset)⟩
  | unexpected {input : Input} {d : Diagnostic} {kind : Kind} {value : Option String} {width : Nat}
      {text rest : List Byte}
      (read : Lexer.tokensOf file (encode source) = .ok input.tokens.toList)
      (fault : input.program.result = .error d)
      (ahead : (encode source).drop offset = text ++ rest)
      (lexeme : Lexeme kind value width text rest)
      (current : input.program.parser.current? =
        some (Token.after file ((encode source).take offset) kind value width)) :
      FailsAt file source offset d

/-- Whatever a fault is about stands at its true place, between two characters. -/
structure FaultBetween (file source : String) (d : Diagnostic) (taken : List Byte) (b : Byte)
    (more : List Byte) : Prop where
  split : encode source = taken ++ b :: more
  fails : FailsAt file source taken.length d
  position : d.position = Position.after file taken
  ascii : b < 0x80 ∨ EndsInAscii taken

theorem exists_faultBetween_of_tokensOf (fault : Lexer.tokensOf file (encode source) = .error d)
    (named : ∃ token, d.cause = .invalidToken token ∧ token ≠ "") :
    ∃ taken b more, FaultBetween file source d taken b more := by
  obtain ⟨taken, rest, split, blocked, rfl⟩ := Lexer.blocked_of_tokensOf fault
  cases rest with
  | nil =>
    obtain ⟨token, cause, nonempty⟩ := named
    cases cause
    exact absurd rfl nonempty
  | cons b more =>
    have front : (encode source).take taken.length = taken := by rw [split, List.take_left]
    refine ⟨taken, b, more, split, ?_, rfl, .inr (blocked.endsInAscii (by simp))⟩
    have place : Lexer.faultAfter file taken (b :: more) = ⟨.invalidToken b.toChar.toString,
        Position.after file ((encode source).take taken.length)⟩ := by
      rw [front]
      rfl
    rw [place] at fault ⊢
    refine .refused ?_ fault
    rw [split, List.getElem?_append_right (Nat.le_refl _), Nat.sub_self]
    rfl

theorem Parser.exists_mem_of_current? {p : Parser} {t : Token} (h : p.current? = some t) :
    t ∈ p.input.tokens.toList ∧ p.position = t.position := by
  unfold Parser.current? at h
  refine ⟨?_, by rw [Parser.position, Input.position, h]; rfl⟩
  unfold Input.current? at h
  split at h
  · cases h
  · exact Array.mem_toList_iff.2 (Array.mem_of_getElem? h)

theorem exists_faultBetween_of_program {input : Input}
    (read : Lexer.tokensOf file (encode source) = .ok input.tokens.toList)
    (fault : input.program.result = .error d) (grammatical : d.cause.isGrammatical) :
    ∃ taken b more, FaultBetween file source d taken b more := by
  obtain ⟨position, -, token⟩ := Parser.points_program fault
  obtain ⟨t, current, -⟩ := token grammatical
  obtain ⟨mem, place⟩ := Parser.exists_mem_of_current? current
  rw [Input.program_input] at mem
  obtain ⟨taken, kind, value, width, text, rest, split, lexeme, rfl⟩ :=
    (Lexer.decomposed_of_tokensOf read).exists_lexeme_of_mem mem
  rw [List.nil_append] at current place
  have front : (encode source).take taken.length = taken := by rw [split, List.take_left]
  have ahead : (encode source).drop taken.length = text ++ rest := by rw [split, List.drop_left]
  rw [← front] at current
  obtain ⟨b, more, lead, rfl, begins⟩ := lexeme.exists_lead
  refine ⟨taken, b, more ++ rest, split, .unexpected read fault ahead lexeme current, ?_,
    .inl (Lead.lt_of_ofByte? b (by rw [begins]; rfl))⟩
  rw [position, place]
  rfl

/-- The character at an offset, after whole lines and what comes before it on its own. Unless it is
white space, the report of the error ends in the rows that mark it, as far as they can be drawn. -/
structure MarksCharacter (source : String) (d : Diagnostic) (offset : Nat)
    (lines before : List Char) (c : Char) (back : List Char) : Prop where
  split : source.toList = lines ++ before ++ c :: back
  offset : (encode (String.ofList (lines ++ before))).length = offset
  whole : Text.WholeLines lines
  within : '\n' ∉ before
  drawn : Text.isWhiteSpace c = false →
    ∃ excerpt, Excerpt.at? source d.position = some excerpt ∧
      (excerpt.caret ≤ Excerpt.maxCaret → ∃ above row mark,
        d.render source = .ok (above ++ "\n" ++ row ++ "\n" ++ mark ++ "\n") ∧
        Excerpt.Marks d.position.line before c (back.takeWhile (· != '\n')) row mark)

/-- The caret of a rendered error marks the character that the error is about. It stands so many
places too far to the right as there are continuation bytes before the character on its line. -/
theorem caret_marks_fault (fault : HasFault file source d) :
    ∃ offset lines before c back, FailsAt file source offset d ∧
      MarksCharacter source d offset lines before c back := by
  obtain ⟨taken, b, more, split, fails, position, ascii⟩ :
      ∃ taken b more, FaultBetween file source d taken b more := by
    rcases fault with ⟨fault, named⟩ | ⟨input, read, fault, grammatical⟩
    · exact exists_faultBetween_of_tokensOf fault named
    · exact exists_faultBetween_of_program read fault grammatical
  rw [← @String.ofList_toList source] at split
  obtain ⟨front, c, back, chars, rfl⟩ := Text.Utf8.exists_boundary split ascii
  obtain ⟨lines, before, rfl, whole, within⟩ := Text.exists_wholeLines front
  refine ⟨_, lines, before, c, back, fails, chars, rfl, whole, within, fun shown => ?_⟩
  have excerpt := Excerpt.at?_after_encode chars whole within shown file
  have line : d.position.line = lines.count '\n' + 1 := by
    rw [position, Position.after_encode whole within]
  rw [← position, ← line] at excerpt
  have onLine : '\n' ∉ before ++ c :: back.takeWhile (· != '\n') := by
    intro mem
    rcases List.mem_append.1 mem with mem | mem
    · exact within mem
    · rcases List.mem_cons.1 mem with rfl | mem
      · cases shown
      · simpa using List.mem_takeWhile_imp mem
  exact ⟨_, excerpt, fun fits => d.render_marks excerpt fits shown onLine⟩

/-- A byte that no token begins with, after a character of two bytes: the caret is one place to the
right of it. -/
theorem caret_marks_fault_after_string :
    let source := "ret\n\t\"é\" @ \n"
    let d : Diagnostic := ⟨.invalidToken "@", ⟨"x", 2, 7⟩⟩
    HasFault "x" source d ∧
      (d.render source).toOption =
        some ("Error: InvalidToken (Character `@` cannot appear here)\n-> x\n" ++
          "  |\n2 | \"é\" @\n  | -----^\n") ∧
      ∃ offset lines before c back, FailsAt "x" source offset d ∧
        MarksCharacter source d offset lines before c back := by
  intro source d
  have read : Lexer.tokensOf "x" (encode "ret\n\t\"é\" @ \n") =
      .error ⟨.invalidToken "@", ⟨"x", 2, 7⟩⟩ := by
    with_unfolding_all rfl
  have report :
      (Diagnostic.render ⟨.invalidToken "@", ⟨"x", 2, 7⟩⟩ "ret\n\t\"é\" @ \n").toOption =
        some ("Error: InvalidToken (Character `@` cannot appear here)\n-> x\n" ++
          "  |\n2 | \"é\" @\n  | -----^\n") := by
    decide +kernel
  have fault : HasFault "x" source d := .inl ⟨read, "@", rfl, by decide⟩
  exact ⟨fault, report, caret_marks_fault fault⟩

end DefLang
