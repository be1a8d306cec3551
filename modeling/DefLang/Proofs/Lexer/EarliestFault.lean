import DefLang.Proofs.Lexer.Exactness

namespace DefLang

variable {file : String} {before gap text rest : List Byte} {kind : Kind} {value : Option String}
  {width : Nat} {b : Byte}

theorem Lead.ofByte?_of_isLayout {b : Byte} (h : b.isLayout) (hb : b.isBlank = false) :
    ofByte? b = some .newline := by
  simp only [Byte.isLayout, hb, Bool.false_or, beq_iff_eq] at h
  rw [h]
  rfl

namespace Keyword

theorem isLayout_of_mem_followers {word : String} {k : Keyword} (h : ofWord? word = some k)
    (hb : some b ∈ k.followers) : b.isLayout := by
  have all : reserved.all fun p => p.2.followers.all (Option.all Byte.isLayout) := by decide
  have followers := List.all_eq_true.1 all (word, k) (mem_of_ofWord? h)
  exact List.all_eq_true.1 followers (some b) hb

end Keyword

theorem Followers.isLayout_of_mem_spacing (hb : some b ∈ Followers.spacing) : b.isLayout := by
  have all : Followers.spacing.all (Option.all Byte.isLayout) := by decide
  exact List.all_eq_true.1 all (some b) hb

/-- A lexeme before a byte that begins no token could as well be the last one. -/
theorem Lexeme.at_end (h : Lexeme kind value width text (b :: rest))
    (lead : Lead.ofByte? b = none) (blank : b.isBlank = false) :
    Lexeme kind value width text [] := by
  -- every byte that has to follow a lexeme is layout, and layout is blank or begins a token
  have layout : b.isLayout → False := by
    intro hb
    rw [Lead.ofByte?_of_isLayout hb blank] at lead
    cases lead
  cases h with
  | newline layout => exact .newline (.of_nil layout.inside)
  | comment line => exact .comment (.of_nil line.inside)
  | atom _ _ next => exact (layout (Followers.isLayout_of_mem_spacing next)).elim
  | keyword _ _ reserved next =>
    exact (layout (Keyword.isLayout_of_mem_followers reserved next)).elim
  | declaration _ _ _ next => exact (layout (Followers.isLayout_of_mem_spacing next)).elim
  | identifier start word free _ =>
    exact .identifier start (.of_nil word.inside) free (by simp)
  | integer start digits _ => exact .integer start (.of_nil digits.inside) (by simp)
  | float start digits decimals => exact .float start digits (.of_nil decimals.inside)
  | string inside closes => exact .string inside closes
  | arrow operators reads => exact .arrow (.of_nil operators.inside) reads
  | operator operators reads => exact .operator (.of_nil operators.inside) reads
  | mark is => exact .mark is

/-- A token that cannot go on with what follows can go on with something else: with a space, or with
the name that a lone colon lacks. -/
theorem Refusal.exists_lexeme {taken : List Byte} (h : Refusal taken rest) (ht : taken ≠ []) :
    ∃ kind value width name, Lexeme kind value width (taken ++ name) [Byte.space] := by
  have word {run : List Byte} (h : ∀ b ∈ run, b.isWord) : Longest Byte.isWord run [Byte.space] :=
    .of_cons h rfl
  cases h with
  | start _ _ => exact absurd rfl ht
  | atomStart _ =>
    exact ⟨_, _, _, [97], .atom rfl (word (by simp)) (by decide)⟩
  | atomEnd start name _ =>
    exact ⟨_, _, _, [], by rw [List.append_nil]; exact .atom start (word name.inside) (by decide)⟩
  | keyword start run reserved _ =>
    exact ⟨_, _, _, [], by
      rw [List.append_nil]
      exact .keyword start (word run.inside) reserved (Keyword.space_mem_followers reserved)⟩
  | declaration start run free _ =>
    exact ⟨_, _, _, [], by rw [List.append_nil]; exact .declaration start run free (by decide)⟩

theorem head?_append_congr {consumed : List Byte} (h : consumed ≠ []) (rest rest' : List Byte) :
    (consumed ++ rest).head? = (consumed ++ rest').head? := by
  obtain ⟨b, bytes, rfl⟩ := List.exists_cons_of_ne_nil h
  rfl

namespace Blocked

variable {consumed : List Byte}

/-- Nothing beyond the byte that blocks was looked at. -/
theorem congr_rest {rest' : List Byte} (h : Blocked consumed rest)
    (hr : rest.head? = rest'.head?) : Blocked consumed rest' := by
  induction h with
  | here blank refusal => exact .here blank (refusal.congr_rest hr)
  | @later _ _ more _ _ _ _ blank lexeme _ ih =>
    refine .later blank (lexeme.congr_rest ?_) (ih hr)
    simp [List.head?_append, hr]

/-- Only a byte that begins no token blocks a source at its start. -/
theorem start_of_nil (h : Blocked [] rest) :
    ∃ b bytes, rest = b :: bytes ∧ Lead.ofByte? b = none ∧ b.isBlank = false := by
  generalize hc : [] = consumed at h
  cases h with
  | @here gap taken _ _ refusal =>
    obtain ⟨rfl, rfl⟩ := List.append_eq_nil_iff.1 hc.symm
    cases refusal with
    | @start b bytes lead blank => exact ⟨b, bytes, rfl, lead, blank⟩
  | later _ lexeme _ =>
    have ht := (List.append_eq_nil_iff.1 (List.append_eq_nil_iff.1 hc.symm).1).2
    exact absurd ht lexeme.text_ne_nil

/-- What was consumed before a block begins a source that falls into tokens, and a longer one if the
block is the end of input. -/
theorem exists_decomposed (h : Blocked consumed rest) (file : String) (before : List Byte) :
    ∃ more tokens, Decomposed file before (consumed ++ more) tokens ∧ (rest = [] → more ≠ []) := by
  induction h generalizing before with
  | @here gap taken rest blank refusal =>
    by_cases ht : taken = []
    · subst ht
      -- nothing of the token was read, so the source may as well end here
      cases refusal with
      | start _ _ => exact ⟨[], [], by simpa using .done blank, fun h => by cases h⟩
    · obtain ⟨kind, value, width, name, lexeme⟩ := refusal.exists_lexeme ht
      have space : ∀ b ∈ [Byte.space], b.isBlank := List.forall_mem_singleton.2 rfl
      have done : Decomposed file (before ++ gap ++ (taken ++ name)) [Byte.space] [] := .done space
      have h := Decomposed.token blank lexeme done
      have split : gap ++ taken ++ (name ++ [Byte.space]) =
          gap ++ (taken ++ name) ++ [Byte.space] := by simp
      exact ⟨name ++ [Byte.space], _, split ▸ h, by simp⟩
  | @later gap text more rest kind value width blank lexeme blocked ih =>
    by_cases hm : more = []
    · subst hm
      -- what blocks stands right after the lexeme, which could have been the last one
      obtain ⟨b, bytes, rfl, lead, hb⟩ := blocked.start_of_nil
      have done : Decomposed file (before ++ gap ++ text) [] [] := .done (by simp)
      have h := Decomposed.token blank (lexeme.at_end lead hb) done
      exact ⟨[], _, by simpa using h, fun h => by cases h⟩
    · obtain ⟨ext, tokens, hd, hr⟩ := ih (before ++ gap ++ text)
      have h := Decomposed.token blank (lexeme.congr_rest (head?_append_congr hm rest ext)) hd
      exact ⟨ext, _, (List.append_assoc ..).symm ▸ h, hr⟩

end Blocked

/-- A fault that names a byte: it is that byte at its true place, nothing after it was looked at,
and what comes before it could have gone on. -/
def NamesByte (file : String) (bytes : List Byte) (d : Diagnostic) : Prop :=
  ∃ i b, bytes[i]? = some b ∧
    d = ⟨.invalidToken b.toChar.toString, Position.after file (bytes.take i)⟩ ∧
    (∀ more, Lexer.tokensOf file (bytes.take (i + 1) ++ more) = .error d) ∧
    ∃ more tokens, Lexer.tokensOf file (bytes.take i ++ more) = .ok tokens

/-- A fault that names the end of input: it stands one past the last byte, and the source could have
gone on. -/
def NamesEnd (file : String) (bytes : List Byte) (d : Diagnostic) : Prop :=
  d = ⟨.invalidToken "", Position.after file bytes⟩ ∧
    ∃ more tokens, more ≠ [] ∧ Lexer.tokensOf file (bytes ++ more) = .ok tokens

namespace Lexer

/-- A source that gives no tokens is blocked, and the fault is where. -/
theorem blocked_of_tokensOf {bytes : List Byte} {d : Diagnostic}
    (h : tokensOf file bytes = .error d) :
    ∃ consumed rest, bytes = consumed ++ rest ∧ Blocked consumed rest ∧
      d = faultAfter file consumed rest := by
  rcases decomposed_or_blocked file [] bytes with ⟨tokens, hd⟩ | ⟨consumed, rest, rfl, hb⟩
  · rw [tokensOf_of_decomposed hd] at h
    cases h
  · rw [tokensOf_eq, tokens_of_blocked hb] at h
    cases h
    exact ⟨consumed, rest, rfl, hb, rfl⟩

/-- The lexer stops at the first byte after which no continuation could have helped. -/
theorem earliest_fault {bytes : List Byte} {d : Diagnostic} (h : tokensOf file bytes = .error d) :
    NamesByte file bytes d ∨ NamesEnd file bytes d := by
  obtain ⟨consumed, rest, rfl, hb, rfl⟩ := blocked_of_tokensOf h
  obtain ⟨more, tokens, hd, hm⟩ := hb.exists_decomposed file []
  have hok := tokensOf_of_decomposed hd
  cases rest with
  | nil =>
    right
    rw [NamesEnd, List.append_nil]
    exact ⟨rfl, more, tokens, hm rfl, hok⟩
  | cons b rest =>
    left
    have at_length : (consumed ++ b :: rest)[consumed.length]? = some b := by
      rw [List.getElem?_append_right (Nat.le_refl _), Nat.sub_self]
      rfl
    refine ⟨consumed.length, b, at_length, ?_, ?_, more, tokens, ?_⟩
    · rw [List.take_left]
      rfl
    · -- only the first byte of what follows is looked at, and that is still there
      intro others
      have hb' : Blocked consumed (b :: others) := hb.congr_rest rfl
      have split : (consumed ++ b :: rest).take (consumed.length + 1) ++ others =
          consumed ++ b :: others := by
        rw [List.append_cons consumed b rest, List.take_left' (by simp), ← List.append_cons]
      rw [split, tokensOf_eq, tokens_of_blocked hb']
      rfl
    · rwa [List.take_left]

theorem earliest_fault_end_at :
    let bytes := Text.Utf8.encode "ret\nend@"
    let d : Diagnostic := ⟨.invalidToken "@", ⟨"x", 2, 4⟩⟩
    tokensOf "x" bytes = .error d ∧ (NamesByte "x" bytes d ∨ NamesEnd "x" bytes d) := by
  have h : tokensOf "x" (Text.Utf8.encode "ret\nend@") =
      .error ⟨.invalidToken "@", ⟨"x", 2, 4⟩⟩ := by with_unfolding_all rfl
  exact ⟨h, earliest_fault h⟩

end Lexer

end DefLang
