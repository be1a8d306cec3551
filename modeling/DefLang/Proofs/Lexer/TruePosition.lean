import DefLang.Proofs.Lexer.Stepping

namespace DefLang

open Position (lineAfter columnAfter)

variable {file : String} {bytes before rest : List Byte} {cut : Prop}

namespace Lexer

def ahead (l : Lexer) : List Byte := l.current.toList ++ l.rest.bytes

/-- The position is that of the byte ahead, or of the end of input. It is a column off at the end
alone, once a string was cut off there. -/
def TellsPlace (file : String) (bytes : List Byte) (cut : Prop) (l : Lexer) : Prop :=
  ∃ before, bytes = before ++ l.ahead ∧ l.current = l.ahead.head? ∧
    (¬cut → l.position = Position.after file before) ∧
    (cut → l.ahead = [] ∧ l.position = ⟨file, lineAfter before, columnAfter before + 1⟩)

end Lexer

namespace Step

def CutsOff (s : Step) : Prop := IsOpenString (s.before.ahead.dropWhile Byte.isBlank)

def IsEnd (s : Step) : Prop := ∃ t, s.answer = .ok t ∧ t.kind = .eof

/-- A fault before which nothing but blanks was consumed. -/
def IsStuck (s : Step) : Prop :=
  ∃ d gap, s.answer = .error d ∧ s.before.ahead = gap ++ s.after.ahead ∧ ∀ b ∈ gap, b.isBlank

/-- What a call keeps to in a source. Where it matters, `cut` says whether the end of input has cut
a string off by then. -/
structure Keeps (file : String) (bytes : List Byte) (cut : Prop) (s : Step) : Prop where
  place : s.after.TellsPlace file bytes cut
  progress : ∀ t, s.answer = .ok t → t.kind ≠ .eof →
    ∃ gap b more, s.before.ahead = gap ++ b :: more ++ s.after.ahead ∧
      (∀ c ∈ gap, c.isBlank) ∧ b.isBlank = false
  ended : s.IsEnd ↔ ∀ b ∈ s.before.ahead, b.isBlank
  stays : s.IsEnd ∨ s.IsStuck →
    ∀ calls, s.after.stepsFor calls = List.replicate calls ⟨s.after, s.answer, s.after⟩

end Step

namespace Lexer

theorem ahead_between (file : String) (before rest : List Byte) :
    (between file before rest).ahead = rest := by
  cases rest with
  | nil => rfl
  | cons b rest => simp [ahead, between, Source.bytes_ofBytes]

theorem ahead_pastEnd (file : String) (before : List Byte) : (pastEnd file before).ahead = [] := rfl

theorem tellsPlace_between (on : ¬cut) (split : bytes = before ++ rest) :
    (between file before rest).TellsPlace file bytes cut := by
  refine ⟨before, ?_, ?_, fun _ => rfl, fun off => absurd off on⟩
  · rw [ahead_between, split]
  · rw [ahead_between, current_between]

theorem tellsPlace_pastEnd (file : String) (bytes : List Byte) (off : cut) :
    (pastEnd file bytes).TellsPlace file bytes cut :=
  ⟨bytes, (List.append_nil bytes).symm, rfl, fun on => absurd off on, fun _ => ⟨rfl, rfl⟩⟩

end Lexer

namespace Step

variable {s : Step}

theorem keeps_of_end {t : Token} (place : s.after.TellsPlace file bytes cut)
    (answer : s.answer = .ok t) (ends : t.kind = .eof) (blank : ∀ b ∈ s.before.ahead, b.isBlank)
    (stays : s.after.step = ⟨s.after, s.answer, s.after⟩) : s.Keeps file bytes cut where
  place := place
  progress t' answer' more := by
    cases answer.symm.trans answer'
    exact absurd ends more
  ended := ⟨fun _ => blank, fun _ => ⟨t, answer, ends⟩⟩
  stays _ := Lexer.stepsFor_of_stays stays

theorem keeps_of_token {t : Token} {gap text : List Byte} {value : Option String} {width : Nat}
    (place : s.after.TellsPlace file bytes cut) (answer : s.answer = .ok t)
    (lexeme : Lexeme t.kind value width text rest) (blank : ∀ b ∈ gap, b.isBlank)
    (before : s.before.ahead = gap ++ (text ++ rest)) (after : s.after.ahead = rest) :
    s.Keeps file bytes cut := by
  obtain ⟨b, more, lead, rfl, begins⟩ := lexeme.exists_lead
  have notBlank := Lead.isBlank_of_ofByte? begins
  have notEnd : ¬s.IsEnd := by
    rintro ⟨t', answer', ends⟩
    cases answer.symm.trans answer'
    exact lexeme.kind_ne_eof ends
  have notStuck : ¬s.IsStuck := by
    rintro ⟨d, -, fault, -⟩
    cases answer.symm.trans fault
  refine ⟨place, fun _ _ _ => ⟨gap, b, more, ?_, blank, notBlank⟩, ?_, ?_⟩
  · rw [before, after, List.append_assoc]
  · refine iff_of_false notEnd fun all => ?_
    rw [all b (by simp [before])] at notBlank
    cases notBlank
  · rintro (ends | stuck)
    · exact absurd ends notEnd
    · exact absurd stuck notStuck

theorem keeps_of_fault {d : Diagnostic} (place : s.after.TellsPlace file bytes cut)
    (answer : s.answer = .error d) (left : ∃ b ∈ s.before.ahead, b.isBlank = false)
    (stays : s.IsStuck → s.after.step = ⟨s.after, s.answer, s.after⟩) :
    s.Keeps file bytes cut := by
  have notOk (t : Token) : s.answer ≠ .ok t := by simp [answer]
  have notEnd : ¬s.IsEnd := fun ⟨t, answer', _⟩ => notOk t answer'
  refine ⟨place, fun t answer' => absurd answer' (notOk t), ?_, ?_⟩
  · obtain ⟨b, mem, lead⟩ := left
    refine iff_of_false notEnd fun all => ?_
    rw [all b mem] at lead
    cases lead
  · rintro (ends | stuck)
    · exact absurd ends notEnd
    · exact Lexer.stepsFor_of_stays (stays stuck)

end Step

namespace Lexer

/-- The lexer reads on as one between these bytes. It may hold blanks of its own before them. -/
structure Faces (file : String) (before rest : List Byte) (l : Lexer) : Prop where
  reads : readToken l = readToken (between file before rest)
  ahead : ∃ blanks, l.ahead = blanks ++ rest ∧ ∀ b ∈ blanks, b.isBlank

/-- Where the calls leave a lexer: between two bytes, or past the end of a source that cut a string
off. -/
inductive Reached (file : String) (bytes : List Byte) (cut : Prop) : Lexer → Prop
  | inside {l : Lexer} {before rest : List Byte} (on : ¬cut) (split : bytes = before ++ rest)
      (faces : l.Faces file before rest) : Reached file bytes cut l
  | past (off : cut) : Reached file bytes cut (pastEnd file bytes)

theorem faces_between (file : String) (before rest : List Byte) :
    (between file before rest).Faces file before rest :=
  ⟨rfl, [], by rw [ahead_between, List.nil_append], by simp⟩

theorem faces_ofSource (file : String) (bytes : List Byte) :
    (ofSource (Source.ofBytes bytes) file).Faces file [] bytes := by
  refine ⟨readToken_ofSource file bytes, [Byte.space], ?_, List.forall_mem_singleton.2 rfl⟩
  exact congrArg (Byte.space :: ·) (Source.bytes_ofBytes bytes)

variable {l : Lexer}

/-- The blanks that a lexer skips are those it holds and those of the source. -/
theorem Faces.exists_gap {gap more : List Byte} (h : l.Faces file before (gap ++ more))
    (blanks : Longest Byte.isBlank gap more) :
    ∃ skipped, l.step.before.ahead = skipped ++ more ∧ Longest Byte.isBlank skipped more := by
  obtain ⟨held, ahead, blank⟩ := h.ahead
  rw [← List.append_assoc] at ahead
  exact ⟨held ++ gap, by rw [step_before, ahead],
    List.forall_mem_append.2 ⟨blank, blanks.inside⟩, blanks.stops⟩

theorem Faces.cutsOff_iff {gap more : List Byte} (h : l.Faces file before (gap ++ more))
    (blanks : Longest Byte.isBlank gap more) : l.step.CutsOff ↔ IsOpenString more := by
  obtain ⟨skipped, ahead, longest⟩ := h.exists_gap blanks
  rw [Step.CutsOff, ahead, longest.dropWhile_append]

theorem not_isOpenString_of_refusal {taken : List Byte} (h : Refusal taken rest) :
    ¬IsOpenString (taken ++ rest) := by
  rintro ⟨body, opens, -⟩
  cases h with
  | start lead _ =>
    obtain rfl := List.head_eq_of_cons_eq opens
    cases lead
  | atomStart _ | atomEnd _ _ _ => cases opens
  | keyword start _ _ _ | declaration start _ _ _ =>
    rw [List.head_eq_of_cons_eq opens] at start
    cases start

/-- What makes a string open is that it has no end, and then nothing follows it. -/
theorem not_isOpenString_append {text : List Byte} {kind : Kind} {value : Option String}
    {width : Nat} (lexeme : Lexeme kind value width text rest) (closed : ¬IsOpenString text) :
    ¬IsOpenString (text ++ rest) := by
  rintro ⟨body, opens, inside⟩
  obtain ⟨b, tail, lead, rfl, -⟩ := lexeme.exists_lead
  obtain ⟨rfl, rfl⟩ := List.cons_eq_cons.1 opens
  exact closed ⟨tail, rfl, fun c hc => inside c (List.mem_append_left rest hc)⟩

def CallKeeps (file : String) (bytes : List Byte) (cut : Prop) (l : Lexer) : Prop :=
  l.step.Keeps file bytes cut ∧ l.step.after.Reached file bytes cut

section Call

variable {gap text taken body : List Byte} {kind : Kind} {value : Option String} {width : Nat}

theorem call_of_blanks (on : ¬cut) (blank : ∀ b ∈ gap, b.isBlank) (h : l.Faces file before gap) :
    CallKeeps file (before ++ gap) cut l := by
  have split : before ++ gap = before ++ gap ++ [] := (List.append_nil _).symm
  have whole := h
  rw [← List.append_nil gap] at whole
  obtain ⟨skipped, ahead, skips⟩ := whole.exists_gap (.of_nil blank)
  rw [List.append_nil] at ahead
  have blanks := skips.inside
  rw [← ahead] at blanks
  have stays := @step_of_blanks file (before ++ gap) _ [] rfl (by simp)
  rw [← split] at stays
  have call := step_of_blanks h.reads blank
  unfold CallKeeps
  rw [call] at blanks ⊢
  exact ⟨Step.keeps_of_end (tellsPlace_between on split) rfl rfl blanks stays,
    .inside on split (faces_between ..)⟩

theorem call_of_closed (on : ¬cut) (blank : ∀ b ∈ gap, b.isBlank)
    (lexeme : Lexeme kind value width text rest) (closed : ¬IsOpenString text)
    (h : l.Faces file before (gap ++ text ++ rest)) :
    CallKeeps file (before ++ (gap ++ text ++ rest)) cut l := by
  have split : before ++ (gap ++ text ++ rest) = before ++ gap ++ text ++ rest := by simp
  have call := step_of_closed h.reads blank lexeme closed
  rw [List.append_assoc] at h
  obtain ⟨skipped, ahead, skips⟩ := h.exists_gap (lexeme.longest_blank blank)
  unfold CallKeeps
  rw [call] at ahead ⊢
  have place := @tellsPlace_between file _ _ rest cut on split
  exact ⟨Step.keeps_of_token place rfl lexeme skips.inside ahead (ahead_between ..),
    .inside on split (faces_between ..)⟩

theorem call_of_openString (off : cut) (blank : ∀ b ∈ gap, b.isBlank)
    (inside : ∀ b ∈ body, b ≠ Byte.quote ∧ b ≠ Byte.newline)
    (h : l.Faces file before (gap ++ Byte.quote :: body)) :
    CallKeeps file (before ++ (gap ++ Byte.quote :: body)) cut l := by
  have call := step_of_openString h.reads blank inside
  rw [List.append_assoc before gap] at call
  have lexeme : Lexeme _ _ _ (Byte.quote :: body) [] := .openString inside
  rw [← List.append_nil (Byte.quote :: body)] at h
  obtain ⟨skipped, ahead, skips⟩ := h.exists_gap (lexeme.longest_blank blank)
  unfold CallKeeps
  rw [call] at ahead ⊢
  have place := tellsPlace_pastEnd file (before ++ (gap ++ Byte.quote :: body)) off
  exact ⟨Step.keeps_of_token place rfl lexeme skips.inside ahead (ahead_pastEnd ..), .past off⟩

/-- A fault that takes nothing is met over and over. -/
theorem step_of_refusal_nil (refusal : Refusal [] rest) :
    let stop := between file before rest
    stop.step = ⟨stop, .error (faultAfter file before rest), stop⟩ := by
  simpa using @step_of_refusal file before [] rest _ [] rfl (by simp) refusal

theorem call_of_refusal (on : ¬cut) (blank : ∀ b ∈ gap, b.isBlank) (refusal : Refusal taken rest)
    (h : l.Faces file before (gap ++ taken ++ rest)) :
    CallKeeps file (before ++ (gap ++ taken ++ rest)) cut l := by
  have split : before ++ (gap ++ taken ++ rest) = before ++ gap ++ taken ++ rest := by simp
  have call := step_of_refusal h.reads blank refusal
  have longest := refusal.longest_blank blank
  rw [List.append_assoc] at h
  obtain ⟨skipped, ahead, -⟩ := h.exists_gap longest
  unfold CallKeeps
  rw [call] at ahead ⊢
  refine ⟨Step.keeps_of_fault (tellsPlace_between on split) rfl ?_ ?_,
    .inside on split (faces_between ..)⟩
  · -- what is refused begins with no blank
    obtain ⟨b, more, begins⟩ := List.exists_cons_of_ne_nil refusal.append_ne_nil
    rw [begins] at ahead longest
    exact ⟨b, by simp [ahead], longest.stops b rfl⟩
  · -- a fault that consumed blanks alone took nothing of what is refused
    rintro ⟨d, blanks, -, same, all⟩
    rw [ahead, ahead_between, ← List.append_assoc] at same
    obtain rfl := List.append_cancel_right same
    have nothing : taken = [] := by
      cases taken with
      | nil => rfl
      | cons b more =>
        have notBlank : b.isBlank = false := longest.stops b rfl
        rw [all b (by simp)] at notBlank
        cases notBlank
    subst nothing
    rw [List.append_nil]
    exact step_of_refusal_nil refusal

theorem call_of_pastEnd (off : cut) (file : String) (bytes : List Byte) :
    CallKeeps file bytes cut (pastEnd file bytes) := by
  unfold CallKeeps
  rw [step_pastEnd]
  exact ⟨Step.keeps_of_end (tellsPlace_pastEnd file bytes off) rfl rfl (by simp [ahead_pastEnd])
    (step_pastEnd file bytes), .past off⟩

end Call

theorem Faces.call (h : l.Faces file before rest) :
    CallKeeps file (before ++ rest) l.step.CutsOff l := by
  cases Facing.of_bytes rest with
  | blanks blank =>
    have whole := h
    rw [← List.append_nil rest] at whole
    refine call_of_blanks ?_ blank h
    rw [whole.cutsOff_iff (.of_nil blank)]
    rintro ⟨body, opens, -⟩
    cases opens
  | closed blank lexeme closed =>
    have whole := h
    rw [List.append_assoc] at whole
    refine call_of_closed ?_ blank lexeme closed h
    rw [whole.cutsOff_iff (lexeme.longest_blank blank)]
    exact not_isOpenString_append lexeme closed
  | @openString gap body blank inside =>
    have longest : Longest Byte.isBlank gap (Byte.quote :: body) :=
      ⟨blank, by rintro b ⟨⟩; rfl⟩
    exact call_of_openString ((h.cutsOff_iff longest).2 ⟨body, rfl, inside⟩) blank inside h
  | refusal blank refusal =>
    have whole := h
    rw [List.append_assoc] at whole
    refine call_of_refusal ?_ blank refusal h
    rw [whole.cutsOff_iff (refusal.longest_blank blank)]
    exact not_isOpenString_of_refusal refusal

theorem Reached.call (h : l.Reached file bytes cut) :
    CallKeeps file bytes (cut ∨ l.step.CutsOff) l := by
  cases h with
  | past off => exact call_of_pastEnd (.inl off) file bytes
  | inside on split faces =>
    rw [split, or_iff_right on]
    exact faces.call

/-- What one call keeps to, every call in a row of them does. -/
theorem Reached.keeps {calls : Nat} {front back : List Step} {s : Step}
    (h : l.Reached file bytes cut) (run : l.stepsFor calls = front ++ s :: back) :
    s.Keeps file bytes (cut ∨ ∃ c ∈ front ++ [s], c.CutsOff) := by
  induction front generalizing l calls cut with
  | nil =>
    cases calls with
    | zero => cases run
    | succ calls =>
      obtain ⟨rfl, -⟩ := List.cons_eq_cons.1 run
      simpa using h.call.1
  | cons c front ih =>
    cases calls with
    | zero => cases run
    | succ calls =>
      obtain ⟨rfl, later⟩ := List.cons_eq_cons.1 run
      have keeps := ih h.call.2 later
      simpa [or_assoc] using keeps

theorem reached_ofSource (file : String) (bytes : List Byte) :
    (ofSource (Source.ofBytes bytes) file).Reached file bytes False :=
  .inside not_false rfl (faces_ofSource file bytes)

theorem Reached.countP_lt (h : l.Reached file bytes cut) (goesOn : l.step.token? ≠ none) :
    l.step.after.ahead.countP (!·.isBlank) < l.ahead.countP (!·.isBlank) := by
  obtain ⟨t, answer, kind⟩ : ∃ t, l.step.answer = .ok t ∧ t.kind ≠ .eof := by
    unfold Step.token? at goesOn
    split at goesOn
    · next t answer =>
      exact ⟨t, answer, fun ends => goesOn (if_pos ends)⟩
    · exact absurd rfl goesOn
  obtain ⟨gap, b, more, ahead, -, notBlank⟩ := h.call.1.progress t answer kind
  rw [step_before] at ahead
  rw [ahead, List.countP_append, List.countP_append, List.countP_cons_of_pos (by simp [notBlank])]
  omega

/-- As every token takes a byte that is no blank, there are no more calls for tokens than such
bytes. -/
theorem Reached.exists_last {n : Nat} (h : l.Reached file bytes cut)
    (most : l.ahead.countP (!·.isBlank) ≤ n) : ∃ s ∈ l.stepsFor (n + 1), s.token? = none := by
  induction n generalizing l cut with
  | zero =>
    refine ⟨l.step, List.mem_cons_self, Classical.byContradiction fun goesOn => ?_⟩
    have less := h.countP_lt goesOn
    omega
  | succ n ih =>
    by_cases last : l.step.token? = none
    · exact ⟨l.step, List.mem_cons_self, last⟩
    · have less := h.countP_lt last
      obtain ⟨s, mem, ends⟩ := ih h.call.2 (by omega)
      exact ⟨s, List.mem_cons_of_mem l.step mem, ends⟩

/-- Call after call keeps to the true place and goes on, and so there are no more tokens than
bytes. -/
theorem stepsFor_keeps (file : String) (bytes : List Byte) :
    let l := ofSource (Source.ofBytes bytes) file
    (∀ calls front s back, l.stepsFor calls = front ++ s :: back →
      s.Keeps file bytes (∃ c ∈ front ++ [s], c.CutsOff)) ∧
    (∃ s ∈ l.stepsFor (bytes.length + 1), s.token? = none) ∧
    ∀ tokens, tokensOf file bytes = .ok tokens → tokens.length ≤ bytes.length := by
  intro l
  have start : l.Reached file bytes False := reached_ofSource file bytes
  refine ⟨fun calls front s back run => ?_, start.exists_last ?_, fun tokens read => ?_⟩
  · have keeps := start.keeps run
    rwa [false_or] at keeps
  · have ahead : l.ahead = Byte.space :: bytes := congrArg _ (Source.bytes_ofBytes bytes)
    rw [ahead, List.countP_cons_of_neg (by decide)]
    exact List.countP_le_length
  · exact (decomposed_of_tokensOf read).length_le

/-- The end of input cuts a string off, and the position is one column too far from then on. -/
theorem stepsFor_keeps_cut_off :
    let bytes := Text.Utf8.encode "1 \"y"
    let l := ofSource (Source.ofBytes bytes) "f"
    ∃ first second, l.stepsFor 2 = [first] ++ second :: [] ∧
      second.Keeps "f" bytes (∃ c ∈ [first] ++ [second], c.CutsOff) ∧
      second.CutsOff ∧ second.after.position = ⟨"f", 1, 6⟩ ∧
      (∃ s ∈ l.stepsFor (bytes.length + 1), s.token? = none) ∧
      ∃ tokens, tokensOf "f" bytes = .ok tokens ∧ tokens.length ≤ bytes.length := by
  intro bytes l
  have run : l.stepsFor 2 = [l.step] ++ l.step.after.step :: [] := rfl
  have cutsOff : l.step.after.step.CutsOff :=
    ⟨[0x79], by with_unfolding_all rfl, List.forall_mem_singleton.2 ⟨by decide, by decide⟩⟩
  have position : l.step.after.step.after.position = ⟨"f", 1, 6⟩ := by with_unfolding_all rfl
  have read : tokensOf "f" bytes =
      .ok [⟨.integer, some "1", "f", 1, 1, 2⟩, ⟨.string, some "y", "f", 1, 3, 6⟩] := by
    with_unfolding_all rfl
  obtain ⟨keeps, last, fewer⟩ := stepsFor_keeps "f" bytes
  exact ⟨_, _, run, keeps 2 _ _ _ run, cutsOff, position, last, _, read, fewer _ read⟩

end Lexer

end DefLang
