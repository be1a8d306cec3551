import DefLang.Command
import DefLang.Proofs.Lexer.Cursor

namespace DefLang

variable {command : Command} {content : Except String Source} {d : Diagnostic} {reason : String}

/-- The first byte is needed before there can be a token. -/
theorem Lexer.tokens_of_failure (file message : String) (rest : Source) :
    (ofSource (.failure message :: rest) file).tokens =
      .error ⟨.readFailure message, ⟨file, 1, 0⟩⟩ := by
  have blanks : takeWhile Byte.isBlank (ofSource (.failure message :: rest) file) =
      .error ⟨.readFailure message, ⟨file, 1, 0⟩⟩ (ofSource rest file) := by
    rw [takeWhile, takeOnto]
    rfl
  rw [tokens_eq, readToken, bind_eq_of_error blanks]

namespace Command

def document (command : Command) (content : Except String Source) : Document :=
  ⟨command.path, content⟩

/-- The errors that a command reports: one of the tokens of its file, or one of the program that
they are parsed as. -/
inductive Reports (command : Command) (content : Except String Source) (d : Diagnostic) : Prop
  | ofTokens (fault : (command.document content).tokens = .error d)
  | ofProgram {tokens : List Token} (read : (command.document content).tokens = .ok tokens)
      (fault : (Input.program
        ⟨tokens.toArray, (command.document content).name, command.options⟩).result = .error d)

theorem run_of_tokens (fault : (command.document content).tokens = .error d) :
    command.run content =
      (d.render (command.document content).excerptText).map (⟨false, "", ·⟩) := by
  unfold document at fault
  simp only [run, fault]
  rfl

/-- Whatever was written before, the report of an error is all that is written as one. -/
theorem Reports.exists_run (h : command.Reports content d) :
    ∃ output, command.run content =
      (d.render (command.document content).excerptText).map (⟨false, output, ·⟩) := by
  cases h with
  | ofTokens fault => exact ⟨"", run_of_tokens fault⟩
  | @ofProgram tokens read fault =>
    refine ⟨if command.quietTokens then "" else tokenLines tokens, ?_⟩
    unfold document at read fault
    simp only [run, read, fault]
    rfl

/-- A file that is not opened has no lines. -/
theorem Reports.line_of_unopened (h : command.Reports (.error reason) d) :
    d.position.line = 0 := by
  cases h with
  | ofTokens fault =>
    cases fault
    rfl
  | ofProgram read _ => cases read

/-- A file whose first read fails, as that of a directory does, is at fault on its first line. -/
theorem Reports.eq_of_failure {message : String} {rest : Source}
    (h : command.Reports (.ok (.failure message :: rest)) d) :
    d = ⟨.readFailure message, ⟨Document.nameOf command.path, 1, 0⟩⟩ := by
  have tokens := Lexer.tokens_of_failure (Document.nameOf command.path) message rest
  cases h with
  | ofTokens fault => exact (Except.error.inj (tokens.symm.trans fault)).symm
  | ofProgram read _ => cases tokens.symm.trans read

end Command

theorem Document.nameOf_x : nameOf "x" = "x" := by rfl

theorem Document.excerptText_of_text {document : Document} (h : document.text = .error reason) :
    document.excerptText = "" := by
  rw [excerptText, h]

namespace Text

/-- A source without text has one line. -/
theorem line?_empty (n : Nat) : line? "" n = if n = 1 then some "" else none := by
  match n with
  | 0 => rfl
  | 1 => rfl
  | n + 2 => rfl

end Text

namespace Excerpt

def blank (column : Nat) : Excerpt := ⟨1, "", max column 1⟩

theorem at?_empty (p : Position) :
    at? "" p = if p.line = 1 then some (blank p.column) else none := by
  rw [at?, Text.line?_empty]
  split
  · next first =>
    have caret : max (max p.column 1 - 0) 1 = max p.column 1 := by omega
    rw [first, Option.map_some, Option.some.injEq, blank, Excerpt.mk.injEq]
    exact ⟨rfl, rfl, caret⟩
  · rfl

end Excerpt

theorem head?_append {text more : String} {c : Char} (h : text.toList.head? = some c) :
    (text ++ more).toList.head? = some c := by
  rw [String.toList_append, List.head?_append, h]
  rfl

theorem Excerpt.head?_draw {e : Excerpt} {drawn : String} (h : e.draw = .ok drawn) :
    drawn.toList.head? = some ' ' := by
  unfold draw at h
  split at h
  · rw [← Except.ok.inj h]
    refine head?_append (head?_append (head?_append ?_))
    unfold margin
    refine head?_append ?_
    rw [String.toList_ofList, List.replicate_succ, List.head?_cons]
  · cases h

/-- No error in words begins with a space. -/
theorem Diagnostic.head?_describe (d : Diagnostic) :
    ∃ c, d.describe.toList.head? = some c ∧ c ≠ ' ' := by
  obtain ⟨cause, position⟩ := d
  suffices h : ∃ c, cause.message.toList.head? = some c ∧ c ≠ ' ' by
    obtain ⟨c, first, word⟩ := h
    exact ⟨c, head?_append (head?_append first), word⟩
  unfold Cause.message
  cases cause with
  | invalidToken | invalidDefinition => exact ⟨'i', head?_append rfl, by decide⟩
  | readFailure | fieldExpected => exact ⟨'f', head?_append rfl, by decide⟩
  | unsupportedDefinition => exact ⟨'d', head?_append (head?_append rfl), by decide⟩
  | typeExpected => exact ⟨'t', head?_append rfl, by decide⟩
  | unexpectedToken => exact ⟨'u', head?_append rfl, by decide⟩
  | earlyEnd => exact ⟨'u', rfl, by decide⟩
  | nestingTooDeep => exact ⟨'n', head?_append (head?_append rfl), by decide⟩

namespace Diagnostic

/-- Where the source has no text, only an error on its first line has an excerpt. -/
theorem render_empty (d : Diagnostic) :
    d.render "" =
      if d.position.line = 1 then (Excerpt.blank d.position.column).draw.map (d.heading ++ ·)
      else .ok (d.heading ++ (d.describe ++ "\n")) := by
  rw [render, Excerpt.at?_empty]
  by_cases first : d.position.line = 1
  · rw [if_pos first, if_pos first]
  · rw [if_neg first, if_neg first]
    rfl

/-- What is drawn is no error in words. -/
theorem drawn_ne_describe {e : Excerpt} {drawn : String} (h : e.draw = .ok drawn) :
    d.heading ++ drawn ≠ d.heading ++ (d.describe ++ "\n") := by
  intro same
  obtain ⟨c, first, notSpace⟩ := d.head?_describe
  have heads : drawn.toList.head? = (d.describe ++ "\n").toList.head? := by
    rw [← String.toList_inj, String.toList_append, String.toList_append] at same
    rw [List.append_cancel_left same]
  rw [Excerpt.head?_draw h, head?_append first, Option.some.injEq] at heads
  exact notSpace heads.symm

end Diagnostic

namespace Command

/-- Where there is no text to take an excerpt from, an error is reported in words exactly if it is
not on the first line. There it has an excerpt of nothing. It is never there if the file cannot be
opened, and always if the first read fails. -/
theorem reported_in_words_iff (unreadable : (command.document content).text = .error reason)
    (reported : command.Reports content d) :
    ((∃ output, command.run content =
        .ok ⟨false, output, d.heading ++ (d.describe ++ "\n")⟩) ↔ d.position.line ≠ 1) ∧
      (d.position.line = 1 → ∃ output, command.run content =
        (Excerpt.blank d.position.column).draw.map fun drawn =>
          ⟨false, output, d.heading ++ drawn⟩) ∧
      (∀ failed, content = .error failed → d.position.line ≠ 1) ∧
      ∀ message rest, content = .ok (.failure message :: rest) → d.position.line = 1 := by
  obtain ⟨output, run⟩ := reported.exists_run
  rw [Document.excerptText_of_text unreadable, d.render_empty] at run
  refine ⟨⟨?_, ?_⟩, ?_, ?_, ?_⟩
  · rintro ⟨others, words⟩ first
    rw [if_pos first, words] at run
    cases drawing : (Excerpt.blank d.position.column).draw with
    | error far =>
      rw [drawing] at run
      cases run
    | ok drawn =>
      rw [drawing] at run
      have same := congrArg Result.errors (Except.ok.inj run)
      exact Diagnostic.drawn_ne_describe drawing same.symm
  · intro later
    rw [if_neg later] at run
    exact ⟨output, run⟩
  · intro first
    rw [if_pos first] at run
    refine ⟨output, run.trans ?_⟩
    cases (Excerpt.blank d.position.column).draw <;> rfl
  · rintro failed rfl
    rw [reported.line_of_unopened]
    decide
  · rintro message rest rfl
    rw [reported.eq_of_failure]

/-- A file that is not well-formed Unicode: its tokens can be read, but no program begins with a
bracket. -/
theorem reported_in_words_iff_on_second_line :
    let command : Command := ⟨false, true, true, false, "x"⟩
    let content : Except String Source := .ok (Source.ofBytes [35, 255, 10, 41])
    let d : Diagnostic := ⟨.unexpectedToken ")", ⟨"x", 2, 1⟩⟩
    (command.document content).text = .error Document.notUnicode ∧ command.Reports content d ∧
      ∃ output, command.run content =
        .ok ⟨false, output, d.heading ++ (d.describe ++ "\n")⟩ := by
  intro command content d
  have unreadable : (command.document content).text = .error Document.notUnicode := rfl
  have read : (command.document content).tokens =
      .ok [⟨.comment, some "#\uFFFD", "x", 1, 1, 3⟩, ⟨.newline, none, "x", 1, 3, 3⟩,
        ⟨.roundClose, some ")", "x", 2, 1, 2⟩] := by
    show Lexer.tokensOf (Document.nameOf "x") [35, 255, 10, 41] = _
    rw [Document.nameOf_x]
    with_unfolding_all rfl
  have reported : command.Reports content d := by
    refine .ofProgram read ?_
    show (Input.program ⟨_, Document.nameOf "x", command.options⟩).result = _
    rw [Document.nameOf_x]
    with_unfolding_all rfl
  have later : d.position.line ≠ 1 := by decide
  exact ⟨unreadable, reported, (reported_in_words_iff unreadable reported).1.2 later⟩

/-- A directory is reported with an excerpt of nothing, and without a word on what went wrong. -/
theorem directory_reported_with_excerpt :
    let command : Command := ⟨false, false, false, false, "x"⟩
    let content : Except String Source := .ok [.failure "Is a directory (os error 21)"]
    let d : Diagnostic := ⟨.readFailure "Is a directory (os error 21)", ⟨"x", 1, 0⟩⟩
    (command.document content).text = .error "Is a directory (os error 21)" ∧
      command.Reports content d ∧
      command.run content = .ok ⟨false, "", "Error: Io\n-> x\n  |\n1 | \n  | ^\n"⟩ ∧
      ¬∃ output, command.run content =
        .ok ⟨false, output, d.heading ++ (d.describe ++ "\n")⟩ := by
  intro command content d
  have fault : (command.document content).tokens = .error d := by
    show (Lexer.ofSource _ (Document.nameOf "x")).tokens = _
    rw [Lexer.tokens_of_failure, Document.nameOf_x]
  have unreadable : (command.document content).text = .error "Is a directory (os error 21)" := rfl
  have drawing : (Excerpt.blank 0).draw = .ok "  |\n1 | \n  | ^\n" := by rfl
  have run : command.run content = .ok ⟨false, "", "Error: Io\n-> x\n  |\n1 | \n  | ^\n"⟩ := by
    rw [run_of_tokens fault, Document.excerptText_of_text unreadable, d.render_empty, if_pos rfl]
    show Except.map _ (Except.map _ (Excerpt.blank 0).draw) = _
    rw [drawing]
    rfl
  refine ⟨unreadable, .ofTokens fault, run, ?_⟩
  rintro ⟨output, words⟩
  rw [run] at words
  exact absurd (congrArg Result.errors (Except.ok.inj words)) (by simp only [d]; decide +kernel)

end Command

end DefLang
