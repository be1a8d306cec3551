import DefLang.Proofs.Report.Caret

namespace DefLang

open Text.Utf8 (encode)

variable {file source : String} {d : Diagnostic} {lines before front back : List Char}

/-- The errors of a source, those at the end of input among them: one of its tokens, or one of the
program that they are parsed as, under whatever options. -/
inductive HasError (file source : String) (d : Diagnostic) : Prop
  | ofTokens (fault : Lexer.tokensOf file (encode source) = .error d)
  | ofProgram {input : Input} (read : Lexer.tokensOf file (encode source) = .ok input.tokens.toList)
      (fault : input.program.result = .error d)

/-- The place of an error in its source: after whole lines, and after so much of its own line. -/
structure Diagnostic.StandsBehind (d : Diagnostic) (file source : String)
    (lines before : List Char) : Prop where
  split : lines ++ before <+: source.toList
  whole : Text.WholeLines lines
  within : '\n' ∉ before
  position : d.position = Position.after file (encode (String.ofList (lines ++ before)))

theorem exists_standsBehind (split : source.toList = front ++ back)
    (position : d.position = Position.after file (encode (String.ofList front))) :
    ∃ lines before, d.StandsBehind file source lines before := by
  obtain ⟨lines, before, rfl, whole, within⟩ := Text.exists_wholeLines front
  exact ⟨lines, before, ⟨back, split.symm⟩, whole, within, position⟩

/-- The lexer is at fault between two characters, or after the last one. -/
theorem exists_standsBehind_of_tokensOf (fault : Lexer.tokensOf file (encode source) = .error d) :
    ∃ lines before, d.StandsBehind file source lines before := by
  obtain ⟨taken, rest, split, blocked, rfl⟩ := Lexer.blocked_of_tokensOf fault
  rw [← @String.ofList_toList source] at split
  cases rest with
  | nil =>
    rw [List.append_nil] at split
    exact exists_standsBehind (List.append_nil _).symm (by rw [split]; rfl)
  | cons b more =>
    obtain ⟨front, c, back, chars, rfl⟩ :=
      Text.Utf8.exists_boundary split (.inr (blocked.endsInAscii (List.cons_ne_nil b more)))
    exact exists_standsBehind chars rfl

/-- Every token begins between two characters. -/
theorem exists_front_of_mem {tokens : List Token} {t : Token}
    (read : Lexer.tokensOf file (encode source) = .ok tokens) (mem : t ∈ tokens) :
    ∃ front back, source.toList = front ++ back ∧
      t.position = Position.after file (encode (String.ofList front)) := by
  obtain ⟨taken, kind, value, width, text, rest, split, lexeme, rfl⟩ :=
    (Lexer.decomposed_of_tokensOf read).exists_lexeme_of_mem mem
  obtain ⟨b, more, lead, rfl, begins⟩ := lexeme.exists_lead
  have ascii : b < 0x80 := Lead.lt_of_ofByte? b (by rw [begins]; rfl)
  rw [← @String.ofList_toList source] at split
  obtain ⟨front, c, back, chars, rfl⟩ := Text.Utf8.exists_boundary split (.inl ascii)
  exact ⟨front, c :: back, chars, rfl⟩

/-- A program without tokens is accepted, so every error of one is at some token. -/
theorem Input.exists_mem_of_program {input : Input} (fault : input.program.result = .error d) :
    ∃ t ∈ input.tokens.toList, d.position = t.position := by
  have position := (Parser.points_program fault).position
  cases current : input.program.parser.current? with
  | some t =>
    obtain ⟨mem, place⟩ := Parser.exists_mem_of_current? current
    rw [program_input] at mem
    exact ⟨t, mem, position.trans place⟩
  | none =>
    -- off the tokens it is at the last one
    rw [Parser.current?, program_input] at current
    rw [Parser.position, program_input, Input.position, current] at position
    cases last : input.tokens.back? with
    | some t =>
      rw [last] at position
      exact ⟨t, Array.mem_toList_iff.2 (Array.mem_of_back? last), position⟩
    | none =>
      have spells : Spells input.options (Node.allMarks []) input.tokens.toList [] := by
        rw [Array.back?_eq_none_iff.1 last]
        exact Spells.nil_iff.2 rfl
      have accepted := (program_of_spells (List.forall_mem_nil _) spells (List.forall_mem_nil _)).1
      rw [fault] at accepted
      cases accepted

theorem HasError.exists_standsBehind (h : HasError file source d) :
    ∃ lines before, d.StandsBehind file source lines before := by
  cases h with
  | ofTokens fault => exact exists_standsBehind_of_tokensOf fault
  | ofProgram read fault =>
    obtain ⟨t, mem, position⟩ := Input.exists_mem_of_program fault
    obtain ⟨front, back, split, place⟩ := exists_front_of_mem read mem
    exact DefLang.exists_standsBehind split (position.trans place)

/-- The bytes of a line but for its indentation. -/
def widthOf (line : List Char) : Nat :=
  (encode (String.ofList (line.dropWhile isIndentation))).length

theorem length_encode_of_isIndentation {chars : List Char}
    (h : ∀ c ∈ chars, isIndentation c) :
    (encode (String.ofList chars)).length = chars.length := by
  have ascii : ∀ c ∈ chars, c.toNat < 0x80 := by
    intro c mem
    have blank := h c mem
    simp only [isIndentation, Bool.or_eq_true, beq_iff_eq] at blank
    rcases blank with rfl | rfl <;> decide
  have bytes := Text.Utf8.countP_isContinuation_encode chars
  rwa [Text.Utf8.countP_isContinuation_of_ascii ascii, Nat.zero_add, eq_comm] at bytes

theorem takeWhile_isIndentation_dropReturn (line : List Char) :
    (Text.dropReturn line).takeWhile isIndentation = line.takeWhile isIndentation := by
  unfold Text.dropReturn
  split
  · next last =>
    obtain ⟨more, rfl⟩ := List.getLast?_eq_some_iff.1 last
    rw [List.dropLast_concat]
    exact (Text.takeWhile_append_cons (by decide) more []).symm
  · rfl

/-- A caret stands one place after so many bytes of a line, its indentation left out. -/
theorem caret_eq_widthOf (before after : List Char) :
    max (max ((encode (String.ofList before)).length + 1) 1 -
      ((before ++ after).takeWhile isIndentation).length) 1 = widthOf before + 1 := by
  have split := @List.takeWhile_append_dropWhile _ isIndentation before
  have chars := congrArg List.length split
  have bytes := congrArg (fun cs => (encode (String.ofList cs)).length) split
  have blanks : (encode (String.ofList (before.takeWhile isIndentation))).length =
      (before.takeWhile isIndentation).length :=
    length_encode_of_isIndentation fun c mem => List.mem_takeWhile_imp mem
  rw [Text.Utf8.encode_ofList_append, List.length_append, blanks] at bytes
  rw [List.length_append] at chars
  rw [List.takeWhile_append, ← bytes, widthOf]
  split
  · next all =>
    -- nothing but indentation comes before the place
    have none : before.dropWhile isIndentation = [] := List.length_eq_zero_iff.1 (by omega)
    have empty : (encode (String.ofList [])).length = 0 := rfl
    rw [none, empty, List.length_append]
    omega
  · omega

namespace Diagnostic.StandsBehind

/-- The source has the line of an error, and shows it. -/
theorem exists_excerpt (h : d.StandsBehind file source lines before) :
    ∃ excerpt, Excerpt.at? source d.position = some excerpt ∧
      excerpt.caret = widthOf before + 1 := by
  obtain ⟨back, split⟩ := h.split
  have line : (before ++ back).takeWhile (· != '\n') =
      before ++ back.takeWhile (· != '\n') :=
    List.takeWhile_append_of_pos fun c mem => by simpa using ne_of_mem_of_not_mem mem h.within
  rw [h.position, Position.after_encode h.whole h.within, Excerpt.at?, Text.line?, ← split,
    List.append_assoc, Text.lineAfter_lines h.whole, line, Option.map_some, Option.map_some]
  refine ⟨_, rfl, ?_⟩
  rw [String.toList_ofList, takeWhile_isIndentation_dropReturn]
  exact caret_eq_widthOf before _

theorem render_of_lt (h : d.StandsBehind file source lines before)
    (near : widthOf before < Excerpt.maxCaret) : ∃ report, d.render source = .ok report := by
  obtain ⟨excerpt, shown, caret⟩ := h.exists_excerpt
  have fits : excerpt.caret ≤ Excerpt.maxCaret := by omega
  rw [render, shown]
  dsimp only
  rw [Excerpt.draw, if_pos fits]
  exact ⟨_, rfl⟩

theorem render_of_le (h : d.StandsBehind file source lines before)
    (far : Excerpt.maxCaret ≤ widthOf before) :
    d.render source = .error ⟨widthOf before + 1⟩ := by
  obtain ⟨excerpt, shown, caret⟩ := h.exists_excerpt
  have tooFar : ¬excerpt.caret ≤ Excerpt.maxCaret := by omega
  rw [render, shown]
  dsimp only
  rw [Excerpt.draw, if_neg tooFar, caret]
  rfl

end Diagnostic.StandsBehind

/-- Every error of a source stands at a place of its own, and is reported exactly if its caret can be
drawn: if, the indentation left out, fewer bytes of its line come before it than there are places
for a caret. -/
theorem error_rendered_iff (h : HasError file source d) :
    ∃ lines before, d.StandsBehind file source lines before ∧
      ((∃ report, d.render source = .ok report) ↔ widthOf before < Excerpt.maxCaret) ∧
      (Excerpt.maxCaret ≤ widthOf before →
        d.render source = .error ⟨widthOf before + 1⟩) := by
  obtain ⟨lines, before, stands⟩ := h.exists_standsBehind
  refine ⟨lines, before, stands, ⟨?_, stands.render_of_lt⟩, stands.render_of_le⟩
  rintro ⟨report, drawn⟩
  by_contra far
  rw [stands.render_of_le (Nat.le_of_not_lt far)] at drawn
  cases drawn

/-- An unfinished function whose last token stands behind a character of two bytes. -/
theorem error_rendered_iff_in_function :
    let source := "def f: A\n\tret \"é\" :b "
    let d : Diagnostic := ⟨.earlyEnd, ⟨"x", 2, 11⟩⟩
    HasError "x" source d ∧
      (d.render source).toOption =
        some ("Error: UnexpectedEndOfInput (" ++
          "Input ended inside a definition, is an `end` missing?)\n-> x\n" ++
          "  |\n2 | ret \"é\" :b\n  | ---------^\n") ∧
      ∃ lines before, d.StandsBehind "x" source lines before ∧
        ((∃ report, d.render source = .ok report) ↔ widthOf before < Excerpt.maxCaret) ∧
        (Excerpt.maxCaret ≤ widthOf before →
          d.render source = .error ⟨widthOf before + 1⟩) := by
  intro source d
  let input : Input := ⟨#[
    ⟨.definition, none, "x", 1, 1, 4⟩, ⟨.declaration, some "f:", "x", 1, 5, 6⟩,
    ⟨.identifier, some "A", "x", 1, 8, 9⟩, ⟨.newline, none, "x", 1, 9, 9⟩,
    ⟨.functionReturn, none, "x", 2, 2, 5⟩, ⟨.string, some "é", "x", 2, 6, 10⟩,
    ⟨.atom, some ":b", "x", 2, 11, 13⟩], "y", .strict⟩
  have read : Lexer.tokensOf "x" (encode "def f: A\n\tret \"é\" :b ") =
      .ok input.tokens.toList := by
    with_unfolding_all rfl
  have fault : input.program.result = .error ⟨.earlyEnd, ⟨"x", 2, 11⟩⟩ := by cbv
  have report : (Diagnostic.render ⟨.earlyEnd, ⟨"x", 2, 11⟩⟩ "def f: A\n\tret \"é\" :b ").toOption =
      some ("Error: UnexpectedEndOfInput (" ++
        "Input ended inside a definition, is an `end` missing?)\n-> x\n" ++
        "  |\n2 | ret \"é\" :b\n  | ---------^\n") := by
    decide +kernel
  have error : HasError "x" source d := .ofProgram read fault
  exact ⟨error, report, error_rendered_iff error⟩

def atomOf (n : Nat) : List Char := ':' :: List.replicate n 'a'

theorem encode_atomOf (n : Nat) :
    encode (String.ofList (atomOf n)) = Byte.colon :: List.replicate n 97 := by
  have chars : atomOf n = (Byte.colon :: List.replicate n 97).map Byte.toChar := by
    rw [List.map_cons, List.map_replicate]
    rfl
  have ascii : ∀ b ∈ Byte.colon :: List.replicate n 97, b < 0x80 := by
    intro b mem
    rcases List.mem_cons.1 mem with rfl | letter
    · decide
    · rw [List.eq_of_mem_replicate letter]
      decide
  rw [chars, Text.Utf8.encode_ascii ascii]

theorem newline_not_mem_atomOf (n : Nat) : '\n' ∉ atomOf n := by
  simp [atomOf, List.mem_replicate]

theorem position_after_atomOf (file : String) (n : Nat) :
    Position.after file (encode (String.ofList (atomOf n))) = ⟨file, 1, n + 2⟩ := by
  have place := @Position.after_encode [] _ (.inl rfl) (newline_not_mem_atomOf n) file
  rw [List.nil_append] at place
  rw [place, encode_atomOf, List.length_cons, List.length_replicate]
  rfl

/-- An atom that the input ends in is at fault there. -/
theorem hasError_atomOf (file : String) (n : Nat) :
    HasError file (String.ofList (atomOf (n + 1))) ⟨.invalidToken "", ⟨file, 1, n + 3⟩⟩ := by
  have word : ∀ b ∈ List.replicate n (97 : Byte), b.isWord := by
    intro b mem
    rw [List.eq_of_mem_replicate mem]
    rfl
  have refusal : Refusal (Byte.colon :: 97 :: List.replicate n 97) [] :=
    .atomEnd rfl (.of_nil word) (by decide)
  have blocked := @Lexer.tokens_of_blocked file [] _ _
    (.here (List.forall_mem_nil (Byte.isBlank ·)) refusal)
  rw [List.nil_append, List.nil_append, List.append_nil, ← List.replicate_succ, ← encode_atomOf,
    ← Lexer.tokensOf_eq, Lexer.faultAfter, position_after_atomOf] at blocked
  exact .ofTokens blocked

theorem standsBehind_atomOf (file : String) (n : Nat) :
    (⟨.invalidToken "", ⟨file, 1, n + 2⟩⟩ : Diagnostic).StandsBehind file
      (String.ofList (atomOf n)) [] (atomOf n) where
  split := by rw [String.toList_ofList]; exact List.prefix_refl _
  whole := .inl rfl
  within := newline_not_mem_atomOf n
  position := (position_after_atomOf file n).symm

theorem widthOf_atomOf (n : Nat) : widthOf (atomOf n) = n + 1 := by
  have whole : (atomOf n).dropWhile isIndentation = atomOf n :=
    List.dropWhile_cons_of_neg (by decide)
  rw [widthOf, whole, encode_atomOf, List.length_cons, List.length_replicate]

/-- One letter too many before the end of input, and the error is not reported. -/
theorem long_atom_not_rendered :
    let source := String.ofList (atomOf 65534)
    let d : Diagnostic := ⟨.invalidToken "", ⟨"w", 1, 65536⟩⟩
    HasError "w" source d ∧ d.render source = .error ⟨65536⟩ := by
  intro source d
  have far : Excerpt.maxCaret ≤ widthOf (atomOf 65534) := by
    rw [widthOf_atomOf]
    exact Nat.le_refl _
  have panics := (standsBehind_atomOf "w" 65534).render_of_le far
  rw [widthOf_atomOf] at panics
  exact ⟨hasError_atomOf "w" 65533, panics⟩

end DefLang
