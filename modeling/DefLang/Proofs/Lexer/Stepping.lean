import DefLang.Proofs.Lexer.Canonical

namespace DefLang

open Position (lineAfter columnAfter)

variable {file : String} {before taken rest ahead : List Byte}

namespace Step

/-- All that a caller sees of a call: the answer, and the position of the lexer after it. -/
def report (s : Step) : Except Diagnostic Token × Position := (s.answer, s.after.position)

def sign (s : Step) : Except Cause Sign := (s.answer.map Token.sign).mapError Diagnostic.cause

end Step

/-- What a call answers that takes these bytes, after those before them. Only the columns of the end
of input are open. -/
inductive Answers (file : String) (before : List Byte) :
    List Byte → List Byte → Except Diagnostic Token → Prop
  | ended {gap} (column : Nat) (blank : ∀ b ∈ gap, b.isBlank) :
      Answers file before gap []
        (.ok ⟨.eof, none, file, lineAfter (before ++ gap), column, column⟩)
  | token {gap text rest kind value width} (blank : ∀ b ∈ gap, b.isBlank)
      (lexeme : Lexeme kind value width text rest) :
      Answers file before (gap ++ text) rest
        (.ok (Token.after file (before ++ gap) kind value width))
  | fault {gap taken rest} (blank : ∀ b ∈ gap, b.isBlank) (refusal : Refusal taken rest) :
      Answers file before (gap ++ taken) rest
        (.error (Lexer.faultAfter file (before ++ gap ++ taken) rest))

/-- What call after call answers about the bytes ahead, after those before them: each token and each
fault at its true place. -/
inductive Answered (file : String) :
    List Byte → List Byte → List (Except Diagnostic Token) → Prop
  | nil {before ahead : List Byte} : Answered file before ahead []
  | cons {before taken rest : List Byte} {answer answers}
      (first : Answers file before taken rest answer)
      (others : Answered file (before ++ taken) rest answers) :
      Answered file before (taken ++ rest) (answer :: answers)

/-- What the bytes ahead hold for a call: blanks, and then nothing, a token or a fault. -/
inductive Facing : List Byte → Prop
  | blanks {gap} (blank : ∀ b ∈ gap, b.isBlank) : Facing gap
  | closed {gap kind value width text rest} (blank : ∀ b ∈ gap, b.isBlank)
      (lexeme : Lexeme kind value width text rest) (closed : ¬IsOpenString text) :
      Facing (gap ++ text ++ rest)
  | openString {gap body} (blank : ∀ b ∈ gap, b.isBlank)
      (inside : ∀ b ∈ body, b ≠ Byte.quote ∧ b ≠ Byte.newline) : Facing (gap ++ Byte.quote :: body)
  | refusal {gap taken rest} (blank : ∀ b ∈ gap, b.isBlank) (refusal : Refusal taken rest) :
      Facing (gap ++ taken ++ rest)

theorem Refusal.append_ne_nil (h : Refusal taken rest) : taken ++ rest ≠ [] := by
  cases h <;> simp

theorem Facing.of_bytes (bytes : List Byte) : Facing bytes := by
  have blanks := Longest.of_takeWhile Byte.isBlank bytes
  have split := (List.takeWhile_append_dropWhile (p := Byte.isBlank) (l := bytes)).symm
  generalize bytes.takeWhile Byte.isBlank = gap, bytes.dropWhile Byte.isBlank = more
    at blanks split
  subst split
  cases more with
  | nil =>
    rw [List.append_nil]
    exact .blanks blanks.inside
  | cons b more =>
    have opens := Opening.of_not_blank (blanks.stops b rfl) more
    generalize b :: more = bytes at opens
    cases opens with
    | @lexeme _ _ _ text rest lexeme =>
      rw [← List.append_assoc]
      by_cases closed : IsOpenString text
      · obtain ⟨body, rfl, inside⟩ := closed
        obtain ⟨-, -, -, rfl⟩ := lexeme.of_quote inside
        rw [List.append_nil]
        exact .openString blanks.inside inside
      · exact .closed blanks.inside lexeme closed
    | refusal refusal =>
      rw [← List.append_assoc]
      exact .refusal blanks.inside refusal

namespace Lexer

theorem step_of_ok {l l' : Lexer} {t : Token} (h : readToken l = .ok t l') :
    l.step = ⟨l, .ok t, l'⟩ := by
  rw [step, h]

theorem step_of_error {l l' : Lexer} {d : Diagnostic} (h : readToken l = .error d l') :
    l.step = ⟨l, .error d, l'⟩ := by
  rw [step, h]

theorem step_before (l : Lexer) : l.step.before = l := by
  unfold step
  split <;> rfl

theorem stepsFor_succ (l : Lexer) (calls : Nat) :
    l.stepsFor (calls + 1) = l.step :: l.step.after.stepsFor calls := rfl

theorem length_stepsFor (l : Lexer) (calls : Nat) : (l.stepsFor calls).length = calls := by
  induction calls generalizing l with
  | zero => rfl
  | succ calls ih => rw [stepsFor_succ, List.length_cons, ih]

theorem stepsFor_of_stays {l : Lexer} {answer : Except Diagnostic Token}
    (stays : l.step = ⟨l, answer, l⟩) (calls : Nat) : l.stepsFor calls = List.replicate calls ⟨l, answer, l⟩ := by
  induction calls with
  | zero => rfl
  | succ calls ih =>
    rw [stepsFor_succ, stays, List.replicate_succ]
    exact congrArg _ ih

/-- The lexer reads on as one between these bytes, wherever it stands itself. -/
def ReadsAs (l : Lexer) (file : String) (before rest : List Byte) : Prop :=
  readToken l = readToken (between file before rest) ∨ rest = [] ∧ l = pastEnd file before

theorem Stands.readsAs {l : Lexer} (h : l.Stands file before rest) : l.ReadsAs file before rest :=
  h.imp_left (congrArg readToken)

theorem readsAs_ofSource (file : String) (bytes : List Byte) :
    (ofSource (Source.ofBytes bytes) file).ReadsAs file [] bytes :=
  .inl (readToken_ofSource file bytes)

section Call

variable {l : Lexer} {gap : List Byte}

/-- Blanks before the end of input are passed over, and then it is the end over and over. -/
theorem step_of_blanks (h : readToken l = readToken (between file before gap))
    (blank : ∀ b ∈ gap, b.isBlank) :
    let stop := between file (before ++ gap) []
    l.step = ⟨l, .ok (stop.token .eof none (columnAfter (before ++ gap))), stop⟩ := by
  have read := @readToken_between file before gap [] (.of_nil blank)
  rw [List.append_nil] at read
  exact step_of_ok (h.trans read)

theorem step_pastEnd (file : String) (before : List Byte) :
    let stop := pastEnd file before
    stop.step = ⟨stop, .ok (stop.token .eof none (columnAfter before + 1)), stop⟩ :=
  step_of_ok (readToken_of_current_none rfl)

theorem step_of_closed {kind : Kind} {value : Option String} {width : Nat} {text : List Byte}
    (h : readToken l = readToken (between file before (gap ++ text ++ rest)))
    (blank : ∀ b ∈ gap, b.isBlank) (lexeme : Lexeme kind value width text rest)
    (closed : ¬IsOpenString text) :
    l.step = ⟨l, .ok (Token.after file (before ++ gap) kind value width),
      between file (before ++ gap ++ text) rest⟩ := by
  rw [List.append_assoc, readToken_between (lexeme.longest_blank blank)] at h
  exact step_of_ok (h.trans (tokenAt_of_closed lexeme closed))

theorem step_of_openString {body : List Byte}
    (h : readToken l = readToken (between file before (gap ++ Byte.quote :: body)))
    (blank : ∀ b ∈ gap, b.isBlank) (inside : ∀ b ∈ body, b ≠ Byte.quote ∧ b ≠ Byte.newline) :
    l.step = ⟨l, .ok (Token.after file (before ++ gap) .string (some (Text.Utf8.lossy body))
      (body.length + 2)), pastEnd file (before ++ gap ++ Byte.quote :: body)⟩ := by
  have blanks : Longest Byte.isBlank gap (Byte.quote :: body) := ⟨blank, by rintro b ⟨⟩; rfl⟩
  rw [readToken_between blanks] at h
  exact step_of_ok (h.trans (tokenAt_of_openString inside))

theorem step_of_refusal
    (h : readToken l = readToken (between file before (gap ++ taken ++ rest)))
    (blank : ∀ b ∈ gap, b.isBlank) (refusal : Refusal taken rest) :
    l.step = ⟨l, .error (faultAfter file (before ++ gap ++ taken) rest),
      between file (before ++ gap ++ taken) rest⟩ := by
  rw [List.append_assoc, readToken_between (refusal.longest_blank blank)] at h
  exact step_of_error (h.trans (tokenAt_of_refusal refusal))

end Call

/-- A call does what it does to the bytes ahead, whatever lexer it is made on and whatever came
before them. -/
theorem exists_step (ahead : List Byte) :
    ∃ taken rest said, ahead = taken ++ rest ∧
      ∀ (l : Lexer) (file : String) (before : List Byte), l.ReadsAs file before ahead →
        l.step.sign = said ∧ Answers file before taken rest l.step.answer ∧
          l.step.after.Stands file (before ++ taken) rest := by
  cases Facing.of_bytes ahead with
  | blanks blank =>
    refine ⟨ahead, [], .ok ⟨.eof, none⟩, (List.append_nil ahead).symm, ?_⟩
    rintro l file before (same | ⟨rfl, rfl⟩)
    · rw [step_of_blanks same blank]
      exact ⟨rfl, .ended _ blank, .inl rfl⟩
    · have answer := @Answers.ended file before [] (columnAfter before + 1) blank
      rw [List.append_nil] at answer ⊢
      rw [step_pastEnd]
      exact ⟨rfl, answer, .inr ⟨rfl, rfl⟩⟩
  | @closed gap kind value width text rest blank lexeme closed =>
    refine ⟨gap ++ text, rest, .ok ⟨kind, value⟩, rfl, ?_⟩
    intro l file before h
    have same := h.resolve_right fun nothing => by simp [lexeme.text_ne_nil] at nothing
    rw [step_of_closed same blank lexeme closed, ← List.append_assoc]
    exact ⟨rfl, .token blank lexeme, .inl rfl⟩
  | @openString gap body blank inside =>
    refine ⟨gap ++ Byte.quote :: body, [], .ok ⟨.string, some (Text.Utf8.lossy body)⟩,
      (List.append_nil _).symm, ?_⟩
    intro l file before h
    have same := h.resolve_right fun nothing => by simp at nothing
    rw [step_of_openString same blank inside, ← List.append_assoc]
    exact ⟨rfl, .token blank (.openString inside), .inr ⟨rfl, rfl⟩⟩
  | @refusal gap taken rest blank refusal =>
    refine ⟨gap ++ taken, rest, .error (.invalidToken (mention rest.head?)), rfl, ?_⟩
    intro l file before h
    have same := h.resolve_right fun nothing => by
      simp [List.append_assoc, refusal.append_ne_nil] at nothing
    rw [step_of_refusal same blank refusal, ← List.append_assoc]
    exact ⟨rfl, .fault blank refusal, .inl rfl⟩

/-- Two lexers with the same bytes ahead say the same, call after call. -/
theorem ReadsAs.map_sign_stepsFor {l l' : Lexer} {file' : String} {before' : List Byte}
    (h : l.ReadsAs file before ahead) (h' : l'.ReadsAs file' before' ahead) (calls : Nat) :
    (l.stepsFor calls).map Step.sign = (l'.stepsFor calls).map Step.sign := by
  induction calls generalizing l l' before before' ahead with
  | zero => rfl
  | succ calls ih =>
    obtain ⟨taken, rest, said, -, step⟩ := exists_step ahead
    obtain ⟨sign, -, stands⟩ := step l file before h
    obtain ⟨sign', -, stands'⟩ := step l' file' before' h'
    rw [stepsFor_succ, stepsFor_succ, List.map_cons, List.map_cons, sign, sign',
      ih stands.readsAs stands'.readsAs]

/-- Call after call answers with true places. -/
theorem ReadsAs.answered {l : Lexer} (h : l.ReadsAs file before ahead) (calls : Nat) :
    Answered file before ahead ((l.stepsFor calls).map Step.answer) := by
  induction calls generalizing l before ahead with
  | zero => exact .nil
  | succ calls ih =>
    obtain ⟨taken, rest, said, rfl, step⟩ := exists_step ahead
    obtain ⟨-, first, stands⟩ := step l file before h
    exact .cons first (ih stands.readsAs)

end Lexer

end DefLang
