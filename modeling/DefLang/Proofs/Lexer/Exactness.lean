import DefLang.Proofs.Lexer.Refusal

namespace DefLang

variable {file : String} {before gap text rest : List Byte} {kind : Kind} {value : Option String}
  {width : Nat}

/-- After these bytes, blanks and lexemes and at last a token that was begun, the source cannot go
on with what follows. -/
inductive Blocked : List Byte → List Byte → Prop
  | here {gap taken rest} (blank : ∀ b ∈ gap, b.isBlank) (refusal : Refusal taken rest) :
      Blocked (gap ++ taken) rest
  | later {gap text more rest kind value width} (blank : ∀ b ∈ gap, b.isBlank)
      (lexeme : Lexeme kind value width text (more ++ rest)) (blocked : Blocked more rest) :
      Blocked (gap ++ text ++ more) rest

theorem Keyword.kind_ne_eof {word : String} {k : Keyword} (h : ofWord? word = some k) :
    k.kind ≠ .eof := by
  have all : ∀ p ∈ reserved, p.2.kind ≠ .eof := by decide
  exact all (word, k) (mem_of_ofWord? h)

theorem Kind.ofMark?_ne_eof : ∀ b : Byte, ofMark? b ≠ some .eof :=
  Byte.forall_of_lt (by decide +kernel)

namespace Lexeme

theorem kind_ne_eof (h : Lexeme kind value width text rest) : kind ≠ .eof := by
  cases h with
  | keyword _ _ reserved _ => exact Keyword.kind_ne_eof reserved
  | mark is => exact fun he => Kind.ofMark?_ne_eof _ (he ▸ is)
  | _ => decide

/-- The first byte of a lexeme says what it is. -/
theorem exists_lead (h : Lexeme kind value width text rest) :
    ∃ b tail lead, text = b :: tail ∧ Lead.ofByte? b = some lead := by
  cases h with
  | newline _ | comment _ | atom _ _ _ | string _ _ | openString _ => exact ⟨_, _, _, rfl, rfl⟩
  | keyword start _ _ _ | declaration start _ _ _ | identifier start _ _ _ =>
    exact ⟨_, _, _, rfl, Lead.ofByte?_of_isLetter _ start⟩
  | integer start _ _ | float start _ _ => exact ⟨_, _, _, rfl, Lead.ofByte?_of_isDigit _ start⟩
  | arrow operators _ | operator operators _ =>
    exact ⟨_, _, _, rfl, Lead.ofByte?_of_isOperator _ (operators.inside _ List.mem_cons_self)⟩
  | mark is => exact ⟨_, _, _, rfl, Lead.ofByte?_of_ofMark? _ _ is⟩

/-- Blanks before a lexeme are all the blanks there are. -/
theorem longest_blank (h : Lexeme kind value width text rest) (blank : ∀ b ∈ gap, b.isBlank) :
    Longest Byte.isBlank gap (text ++ rest) := by
  obtain ⟨b, tail, lead, rfl, hl⟩ := h.exists_lead
  refine ⟨blank, ?_⟩
  rintro c ⟨⟩
  exact Lead.isBlank_of_ofByte? hl

end Lexeme

theorem Refusal.longest_blank {taken : List Byte} (h : Refusal taken rest)
    (blank : ∀ b ∈ gap, b.isBlank) : Longest Byte.isBlank gap (taken ++ rest) := by
  refine ⟨blank, ?_⟩
  cases h with
  | start lead hb => rintro c ⟨⟩; exact hb
  | atomStart _ | atomEnd _ _ _ => rintro c ⟨⟩; rfl
  | keyword start _ _ _ | declaration start _ _ _ =>
    rintro c ⟨⟩
    exact Lead.isBlank_of_ofByte? (Lead.ofByte?_of_isLetter _ start)

namespace Lexer

theorem tokens_congr {l l' : Lexer} (h : readToken l = readToken l') : l.tokens = l'.tokens := by
  rw [tokens_eq, tokens_eq, h]

theorem readToken_of_current_none {l : Lexer} (h : l.current = none) :
    readToken l = .ok (l.token .eof none l.column) l := by
  have hb : takeWhile Byte.isBlank l = .ok [] l := takeOnto_of_stop [] (by simp [h])
  rw [readToken, bind_eq_of_ok hb, bind_get]
  simp only [tokenAt, h]
  rfl

theorem tokens_of_current_none {l : Lexer} (h : l.current = none) : l.tokens = .ok [] := by
  rw [tokens_eq, readToken_of_current_none h]
  rfl

theorem Stands.tokens_eq {l : Lexer} (h : l.Stands file before rest) :
    l.tokens = (between file before rest).tokens := by
  obtain rfl | ⟨rfl, rfl⟩ := h
  · rfl
  · rw [tokens_of_current_none rfl, tokens_of_current_none rfl]

/-- The blank before the first byte is passed over. -/
theorem readToken_ofSource (file : String) (bytes : List Byte) :
    readToken (ofSource (Source.ofBytes bytes) file) = readToken (between file [] bytes) := by
  have start :
      readByte (ofSource (Source.ofBytes bytes) file) = .ok () (between file [] bytes) := by
    cases bytes <;> rfl
  have hb := Longest.of_takeWhile Byte.isBlank bytes
  -- a lexer starts on a blank of its own, which the first gap takes along
  have run := @takeOnto_between file [] Byte.isBlank _ _ [Byte.space] hb
  have run' := @takeWhile_between file [] Byte.isBlank _ _ hb
  rw [List.takeWhile_append_dropWhile] at run run'
  have first : takeWhile Byte.isBlank (ofSource (Source.ofBytes bytes) file) = _ :=
    (takeOnto_of_accept [] rfl rfl start).trans run
  rw [readToken, bind_eq_of_ok first, bind_eq_of_ok run']

theorem tokensOf_eq (file : String) (bytes : List Byte) :
    tokensOf file bytes = (between file [] bytes).tokens :=
  tokens_congr (readToken_ofSource file bytes)

theorem readToken_between (h : Longest Byte.isBlank gap rest) :
    readToken (between file before (gap ++ rest)) =
      tokenAt (between file (before ++ gap) rest) (between file (before ++ gap) rest) := by
  rw [readToken, bind_eq_of_ok (takeWhile_between h), bind_get]

theorem tokens_of_lexeme (blank : ∀ b ∈ gap, b.isBlank)
    (h : Lexeme kind value width text rest) :
    (between file before (gap ++ text ++ rest)).tokens =
      (between file (before ++ gap ++ text) rest).tokens.map
        (Token.after file (before ++ gap) kind value width :: ·) := by
  obtain ⟨l, hl, hs⟩ := @tokenAt_of_lexeme file (before ++ gap) _ _ _ _ _ h
  rw [tokens_eq, List.append_assoc, readToken_between (h.longest_blank blank), hl]
  dsimp only
  have goes_on : (Token.after file (before ++ gap) kind value width).kind ≠ .eof := h.kind_ne_eof
  rw [if_neg goes_on, hs.tokens_eq]

theorem tokens_of_refusal {taken : List Byte} (blank : ∀ b ∈ gap, b.isBlank)
    (h : Refusal taken rest) :
    (between file before (gap ++ taken ++ rest)).tokens =
      .error (faultAfter file (before ++ gap ++ taken) rest) := by
  rw [tokens_eq, List.append_assoc, readToken_between (h.longest_blank blank),
    tokenAt_of_refusal h]

theorem tokens_of_decomposed {bytes : List Byte} {tokens : List Token}
    (h : Decomposed file before bytes tokens) :
    (between file before bytes).tokens = .ok tokens := by
  induction h with
  | @done before gap blank =>
    have hr := @readToken_between file before gap [] (.of_nil blank)
    rw [List.append_nil] at hr
    rw [tokens_eq, hr]
    rfl
  | token blank lexeme _ ih =>
    rw [tokens_of_lexeme blank lexeme, ih]
    rfl

theorem tokens_of_blocked {consumed : List Byte} (h : Blocked consumed rest) :
    (between file before (consumed ++ rest)).tokens =
      .error (faultAfter file (before ++ consumed) rest) := by
  induction h generalizing before with
  | here blank refusal => rw [tokens_of_refusal blank refusal, List.append_assoc]
  | later blank lexeme _ ih =>
    rw [List.append_assoc, tokens_of_lexeme blank lexeme, ih]
    simp [Except.map]

/-- Every source either falls into tokens or is blocked somewhere. -/
theorem decomposed_or_blocked (file : String) (before bytes : List Byte) :
    (∃ tokens, Decomposed file before bytes tokens) ∨
      ∃ consumed rest, bytes = consumed ++ rest ∧ Blocked consumed rest := by
  -- on the bytes that are left, of which a lexeme takes at least one
  induction hn : bytes.length using Nat.strongRecOn generalizing before bytes with
  | _ n ih =>
    have hb := Longest.of_takeWhile Byte.isBlank bytes
    rw [← List.takeWhile_append_dropWhile (p := Byte.isBlank) (l := bytes)] at hn ⊢
    generalize bytes.takeWhile Byte.isBlank = gap, bytes.dropWhile Byte.isBlank = rest at hb hn ⊢
    cases rest with
    | nil => exact .inl ⟨[], by simpa using .done hb.inside⟩
    | cons b rest =>
      have hopen := Opening.of_not_blank (hb.stops b rfl) rest
      generalize b :: rest = bytes at hopen hn
      cases hopen with
      | @lexeme _ _ _ text rest lexeme =>
        have hlt : rest.length < n := by
          have := List.length_pos_iff.2 lexeme.text_ne_nil
          simp only [List.length_append] at hn
          omega
        rw [← List.append_assoc]
        rcases ih _ hlt (before ++ gap ++ text) rest rfl with ⟨tokens, h⟩ | ⟨more, rest, rfl, h⟩
        · exact .inl ⟨_, .token hb.inside lexeme h⟩
        · exact .inr ⟨_, rest, (List.append_assoc ..).symm, .later hb.inside lexeme h⟩
      | @refusal taken rest refusal =>
        exact .inr ⟨gap ++ taken, rest, (List.append_assoc ..).symm, .here hb.inside refusal⟩

theorem decomposed_of_tokensOf {bytes : List Byte} {tokens : List Token}
    (h : tokensOf file bytes = .ok tokens) : Decomposed file [] bytes tokens := by
  rw [tokensOf_eq] at h
  rcases decomposed_or_blocked file [] bytes with ⟨tokens', hd⟩ | ⟨consumed, rest, rfl, hb⟩
  · rw [tokens_of_decomposed hd] at h
    cases h
    exact hd
  · rw [tokens_of_blocked hb] at h
    cases h

theorem tokensOf_of_decomposed {bytes : List Byte} {tokens : List Token}
    (h : Decomposed file [] bytes tokens) : tokensOf file bytes = .ok tokens := by
  rw [tokensOf_eq, tokens_of_decomposed h]

/-- All places in a source of less than `2 ^ 32 - 2` bytes fit into 32 bits. -/
theorem places_lt_of_tokensOf {bytes : List Byte} {tokens : List Token}
    (h : tokensOf file bytes = .ok tokens) (hb : bytes.length + 2 < UInt32.size) :
    ∀ t ∈ tokens, t.line < UInt32.size ∧ t.start < UInt32.size ∧ t.stop < UInt32.size := by
  intro t ht
  have := (decomposed_of_tokensOf h).places_le t ht
  rw [List.nil_append] at this
  omega

/-- A source that is read without failure gives tokens exactly if it falls into them, with nothing
but blanks between their lexemes. -/
theorem tokensOf_eq_ok_iff (file : String) (bytes : List Byte) (tokens : List Token) :
    tokensOf file bytes = .ok tokens ↔ Decomposed file [] bytes tokens :=
  ⟨decomposed_of_tokensOf, tokensOf_of_decomposed⟩

end Lexer

end DefLang
