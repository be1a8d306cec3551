import DefLang.Proofs.Lexer.Interruption
import DefLang.Proofs.Lexer.LineBreak

namespace DefLang

open Position (lineAfter columnAfter)

variable {file : String} {lines before taken rest ahead : List Byte}

def answerBelow (lines : Nat) (answer : Except Diagnostic Token) : Except Diagnostic Token :=
  (answer.map (Token.below lines)).mapError (Diagnostic.below lines)

/-- What is answered when the lexer leaves a newline twice: the newline stands at the start of the
line after its own, and all that follows is a line too far down. -/
def leftTwice (file : String) (line : Nat) :
    List (Except Diagnostic Token) → List (Except Diagnostic Token)
  | [] => []
  | _ :: others => .ok ⟨.newline, none, file, line + 1, 0, 0⟩ :: others.map (answerBelow 1)

/-- Whole lines before all that was read move an answer down. -/
theorem Answers.of_lines {answer : Except Diagnostic Token} (breaks : WholeLines lines)
    (h : Answers file (lines ++ before) taken rest answer) :
    ∃ alone, Answers file before taken rest alone ∧
      answer = answerBelow (lines.count Byte.newline) alone := by
  cases h with
  | ended column blank =>
    refine ⟨_, .ended column blank, ?_⟩
    obtain ⟨-, line, -⟩ := Position.mk.inj (breaks.after_append file (before ++ taken))
    rw [List.append_assoc, line]
    rfl
  | token blank lexeme =>
    refine ⟨_, .token blank lexeme, ?_⟩
    rw [List.append_assoc, Token.after_below breaks]
    rfl
  | fault blank refusal =>
    refine ⟨_, .fault blank refusal, ?_⟩
    rw [Lexer.faultAfter, List.append_assoc lines, List.append_assoc lines,
      breaks.after_append]
    rfl

theorem Answered.of_lines {answers : List (Except Diagnostic Token)} (breaks : WholeLines lines)
    (h : Answered file (lines ++ before) ahead answers) :
    ∃ alone, Answered file before ahead alone ∧
      answers = alone.map (answerBelow (lines.count Byte.newline)) := by
  generalize hb : lines ++ before = start at h
  induction h generalizing before with
  | nil => exact ⟨[], .nil, rfl⟩
  | @cons _ taken rest answer answers first _ ih =>
    subst hb
    obtain ⟨alone, answered, rfl⟩ := first.of_lines breaks
    obtain ⟨others, more, rfl⟩ := ih (List.append_assoc lines before taken).symm
    exact ⟨alone :: others, @Answered.cons _ _ _ _ _ _ answered more, rfl⟩

namespace Lexer

/-- A lexer that was stopped after another byte than a newline stands at that byte again. -/
theorem stopped_of_ne {b : Byte} (hb : b ≠ Byte.newline) (before later : List Byte) :
    stopped file (before ++ [b]) later = between file before (b :: later) := by
  rw [stopped, List.getLast?_concat, Position.lineAfter_append,
    Position.columnAfter_concat_of_ne before hb]
  simp [between, hb]

/-- A lexer that was stopped after a newline leaves it once more, and with it another line. -/
theorem step_stopped_newline {run : List Byte} (layout : Longest Byte.isLayout run rest)
    (before : List Byte) :
    (stopped file (before ++ [Byte.newline]) (run ++ rest)).step =
      ⟨stopped file (before ++ [Byte.newline]) (run ++ rest),
        .ok ⟨.newline, none, file, lineAfter before + 1, 0, 0⟩,
        between file (Byte.newline :: (before ++ [Byte.newline]) ++ run) rest⟩ := by
  have again : (stopped file (before ++ [Byte.newline]) (run ++ rest)).leaveLine =
      stopped file (Byte.newline :: (before ++ [Byte.newline])) (run ++ rest) := by
    rw [← List.cons_append, stopped, stopped, List.getLast?_concat, List.getLast?_concat,
      Position.columnAfter_concat_newline, Position.columnAfter_concat_newline]
    simp [leaveLine, lineAfter]
  generalize hl : stopped file (before ++ [Byte.newline]) (run ++ rest) = l at again
  have current : l.current = some Byte.newline := by
    rw [← hl, stopped, List.getLast?_concat]
    rfl
  have token : l.token .newline none l.column =
      ⟨.newline, none, file, lineAfter before + 1, 0, 0⟩ := by
    rw [← hl, stopped, Position.columnAfter_concat_newline, Position.lineAfter_append]
    rfl
  have blanks : takeWhile Byte.isBlank l = .ok [] l := by
    apply takeOnto_of_stop
    rw [current]
    rintro b ⟨⟩
    rfl
  have lead : Lead.ofByte? Byte.newline = some .newline := rfl
  apply step_of_ok
  rw [readToken, bind_eq_of_ok blanks, bind_get]
  simp only [tokenAt, current, lead]
  rw [bind_eq_of_ok (readByte_of_stopped again), lexeme, newline_between layout, token]

theorem answers_newline {run : List Byte} (layout : Longest Byte.isLayout run rest) :
    Answers file before (Byte.newline :: run) rest
      (.ok (Token.after file before .newline none 0)) := by
  have first := @Answers.token file before [] _ _ _ _ _ (by simp) (.newline layout)
  rwa [List.append_nil, List.nil_append] at first

theorem step_between_newline {run : List Byte} (layout : Longest Byte.isLayout run rest)
    (file : String) (before : List Byte) :
    let l := (between file before (Byte.newline :: (run ++ rest))).step
    l.sign = .ok ⟨.newline, none⟩ ∧ l.after.Stands file (before ++ Byte.newline :: run) rest := by
  intro l
  have lexeme : Lexeme .newline none 0 (Byte.newline :: run) rest := .newline layout
  obtain ⟨l', token, stands⟩ := @tokenAt_of_lexeme file before _ _ _ _ _ lexeme
  have read := @readToken_between file before [] _ (lexeme.longest_blank (by simp))
  rw [List.append_nil, List.nil_append, token] at read
  have step : l = _ := step_of_ok read
  rw [step]
  exact ⟨rfl, stands⟩

/-- After a newline the lexer says what it would have said, with the lines moved. -/
theorem stepsFor_stopped_newline (file : String) (before later : List Byte) (calls : Nat) :
    let l := stopped file (before ++ [Byte.newline]) later
    (l.stepsFor calls).map Step.sign =
        ((between file before (Byte.newline :: later)).stepsFor calls).map Step.sign ∧
      ∃ answers, Answered file before (Byte.newline :: later) answers ∧
        (l.stepsFor calls).map Step.answer = leftTwice file (lineAfter before) answers := by
  have layout := Longest.of_takeWhile Byte.isLayout later
  rw [← List.takeWhile_append_dropWhile (p := Byte.isLayout) (l := later)]
  generalize later.takeWhile Byte.isLayout = run, later.dropWhile Byte.isLayout = rest at layout
  cases calls with
  | zero => exact ⟨rfl, [], .nil, rfl⟩
  | succ calls =>
    obtain ⟨sign, stands⟩ := step_between_newline layout file before
    have moved : (between file ([Byte.newline] ++ (before ++ Byte.newline :: run)) rest).Stands
        file ([Byte.newline] ++ (before ++ Byte.newline :: run)) rest := .inl rfl
    have place : Byte.newline :: (before ++ [Byte.newline]) ++ run =
        [Byte.newline] ++ (before ++ Byte.newline :: run) := by simp
    dsimp only
    rw [stepsFor_succ, stepsFor_succ, step_stopped_newline layout, place]
    constructor
    · rw [List.map_cons, List.map_cons, sign,
        moved.readsAs.map_sign_stepsFor stands.readsAs calls]
      rfl
    · obtain ⟨alone, answered, below⟩ :=
        (moved.readsAs.answered calls).of_lines (.inr rfl)
      refine ⟨_ :: alone, .cons (answers_newline layout) answered, ?_⟩
      rw [List.map_cons, below]
      rfl

end Lexer

/-- The calls after a read has failed that was to bring what follows the first `n` bytes. They say
what a new lexer says from the last of these bytes on, at the true places, unless that byte is a
newline. -/
structure Resumed (file : String) (bytes : List Byte) (n : Nat) (later : List Step) : Prop where
  signs : later.map Step.sign =
    ((Lexer.ofSource (Source.ofBytes (bytes.drop (n - 1))) file).stepsFor later.length).map
      Step.sign
  places : ∃ answers, Answered file (bytes.take (n - 1)) (bytes.drop (n - 1)) answers ∧
    later.map Step.answer =
      if (bytes.take n).getLast? = some Byte.newline then
        leftTwice file (lineAfter (bytes.take (n - 1))) answers
      else answers

namespace Lexer

theorem resumed_of_stopped {bytes : List Byte} {n : Nat} (h : n ≤ bytes.length) (file : String)
    (calls : Nat) :
    Resumed file bytes n ((stopped file (bytes.take n) (bytes.drop n)).stepsFor calls) := by
  cases n with
  | zero =>
    have start := readsAs_ofSource file bytes
    refine ⟨by rw [length_stepsFor]; rfl, _, start.answered calls, rfl⟩
  | succ i =>
    have hi : i < bytes.length := h
    have fresh := readsAs_ofSource file (bytes.drop i)
    generalize byte : bytes[i] = b
    have front : bytes.take (i + 1) = bytes.take i ++ [b] :=
      byte ▸ List.take_succ_eq_append_getElem hi
    have ahead : b :: bytes.drop (i + 1) = bytes.drop i :=
      byte ▸ (List.drop_eq_getElem_cons hi).symm
    have last : (bytes.take (i + 1)).getLast? = some b := by rw [front, List.getLast?_concat]
    by_cases hb : b = Byte.newline
    · subst hb
      have there : (between file (bytes.take i) (bytes.drop i)).Stands file (bytes.take i)
          (bytes.drop i) := .inl rfl
      obtain ⟨sign, answers, answered, moved⟩ :=
        stepsFor_stopped_newline file (bytes.take i) (bytes.drop (i + 1)) calls
      rw [← front, ahead] at sign
      rw [ahead] at answered
      rw [← front] at moved
      refine ⟨?_, answers, answered, moved.trans (if_pos last).symm⟩
      rw [sign, length_stepsFor]
      exact there.readsAs.map_sign_stepsFor fresh calls
    · have stands : (stopped file (bytes.take (i + 1)) (bytes.drop (i + 1))).Stands file
          (bytes.take i) (bytes.drop i) := .inl (by rw [front, stopped_of_ne hb, ahead])
      refine ⟨?_, _, stands.readsAs.answered calls, (if_neg (by simpa [last] using hb)).symm⟩
      rw [length_stepsFor]
      exact stands.readsAs.map_sign_stepsFor fresh calls

/-- A failed read hurts the token that needed it and no other. All calls before it report what they
would have reported; that call fails, one column before what it did not get; and all calls after it
go on from the last byte that was read. -/
theorem stepsFor_interrupted {bytes : List Byte} {n : Nat} (h : n ≤ bytes.length)
    (file message : String) (calls : Nat) :
    let whole := ofSource (Source.ofBytes bytes) file
    let broken := ofSource (Source.interrupted bytes n message) file
    let undisturbed := whole.callsBefore (bytes.drop n) calls
    ((broken.stepsFor calls).take undisturbed).map Step.report =
        ((whole.stepsFor calls).take undisturbed).map Step.report ∧
      ∀ failing later, (broken.stepsFor calls).drop undisturbed = failing :: later →
        failing.after.position =
          ⟨file, lineAfter (bytes.take n), columnAfter (bytes.take n) - 1⟩ ∧
        failing.answer = .error ⟨.readFailure message, failing.after.position⟩ ∧
        Resumed file bytes n later := by
  intro whole broken undisturbed
  have doomed := Doomed.ofSource file message (bytes.take n) (bytes.drop n)
  rw [List.take_append_drop] at doomed
  have source : Source.interrupted bytes n message = _ := if_pos h
  rw [← source] at doomed
  obtain ⟨same, fails⟩ := doomed.stepsFor calls
  refine ⟨same, ?_⟩
  intro failing later resumes
  obtain ⟨answer, after, resumed⟩ := fails failing later resumes
  rw [answer, after]
  refine ⟨rfl, rfl, ?_⟩
  rw [resumed]
  exact resumed_of_stopped h file _

/-- The read after a line break fails. The break is told twice, and then the lines are one ahead. -/
theorem stepsFor_interrupted_after_newline :
    let bytes := Text.Utf8.encode "ret\n\nend"
    let calls := (ofSource (Source.interrupted bytes 4 "gone") "x").stepsFor 4
    4 ≤ bytes.length ∧
      calls.map Step.answer =
        [.ok ⟨.functionReturn, none, "x", 1, 1, 4⟩, .error ⟨.readFailure "gone", ⟨"x", 2, 0⟩⟩,
          .ok ⟨.newline, none, "x", 2, 0, 0⟩, .ok ⟨.definitionEnd, none, "x", 4, 1, 4⟩] ∧
      Resumed "x" bytes 4 (calls.drop 2) := by
  intro bytes calls
  have within : 4 ≤ bytes.length := by decide
  have answers : ((ofSource (Source.interrupted (Text.Utf8.encode "ret\n\nend") 4 "gone")
      "x").stepsFor 4).map Step.answer =
        [.ok ⟨.functionReturn, none, "x", 1, 1, 4⟩, .error ⟨.readFailure "gone", ⟨"x", 2, 0⟩⟩,
          .ok ⟨.newline, none, "x", 2, 0, 0⟩, .ok ⟨.definitionEnd, none, "x", 4, 1, 4⟩] := by
    with_unfolding_all rfl
  have undisturbed : (ofSource (Source.ofBytes (Text.Utf8.encode "ret\n\nend")) "x").callsBefore
      ((Text.Utf8.encode "ret\n\nend").drop 4) 4 = 1 := by
    with_unfolding_all rfl
  obtain ⟨-, fails⟩ := stepsFor_interrupted within "x" "gone" 4
  rw [undisturbed] at fails
  exact ⟨within, answers, (fails _ _ rfl).2.2⟩

end Lexer

end DefLang
