import DefLang.Proofs.Lexer.EarliestFault

namespace DefLang

open Position (lineAfter columnAfter)

def WholeLines (bytes : List Byte) : Prop := bytes = [] ∨ bytes.getLast? = some Byte.newline

def Position.below (lines : Nat) (p : Position) : Position := { p with line := p.line + lines }

def Token.below (lines : Nat) (t : Token) : Token := { t with line := t.line + lines }

def Diagnostic.below (lines : Nat) (d : Diagnostic) : Diagnostic :=
  ⟨d.cause, d.position.below lines⟩

variable {file : String} {before gap text rest : List Byte} {kind : Kind} {value : Option String}
  {width : Nat} {lines bytes : List Byte}

namespace WholeLines

theorem of_append {front back : List Byte} (h : WholeLines (front ++ back)) : WholeLines back := by
  rcases h with h | h
  · exact .inl (List.append_eq_nil_iff.1 h).2
  · rw [List.getLast?_append] at h
    cases hb : back.getLast? with
    | none => exact .inl (List.getLast?_eq_none_iff.1 hb)
    | some b => exact .inr (by rw [hb] at h; rwa [hb])

theorem getLast?_eq (h : WholeLines lines) (hn : lines ≠ []) :
    lines.getLast? = some Byte.newline :=
  h.resolve_left hn

/-- Columns are counted from the start of the line, so whole lines before it do not count. -/
theorem columnAfter_append (h : WholeLines lines) (bytes : List Byte) :
    columnAfter (lines ++ bytes) = columnAfter bytes := by
  have stops : lines.reverse.takeWhile (· != Byte.newline) = [] := by
    rcases h with rfl | h
    · rfl
    · rw [← List.head?_reverse] at h
      obtain ⟨more, hm⟩ := List.head?_eq_some_iff.1 h
      simp [hm]
  rw [columnAfter, columnAfter, List.reverse_append, List.takeWhile_append, stops]
  split
  · next all => rw [List.append_nil, all]
  · rfl

theorem after_append (h : WholeLines lines) (file : String) (bytes : List Byte) :
    Position.after file (lines ++ bytes) =
      (Position.after file bytes).below (lines.count Byte.newline) := by
  have line : lineAfter (lines ++ bytes) = lineAfter bytes + lines.count Byte.newline := by
    rw [Position.lineAfter_append, lineAfter, lineAfter]
    omega
  rw [Position.after, Position.after, Position.below, line, h.columnAfter_append]

end WholeLines

theorem Token.after_below (h : WholeLines lines) (file : String) (before : List Byte)
    (kind : Kind) (value : Option String) (width : Nat) :
    Token.after file (lines ++ before) kind value width =
      (Token.after file before kind value width).below (lines.count Byte.newline) := by
  obtain ⟨-, line, column⟩ := Position.mk.inj (h.after_append file before)
  rw [Token.after, Token.after, Token.below, line, column]
  rfl

/-- Whole lines before some bytes move their tokens down. -/
theorem Decomposed.after_lines {tokens : List Token} (h : Decomposed file before bytes tokens)
    (hl : WholeLines lines) :
    Decomposed file (lines ++ before) bytes
      (tokens.map (Token.below (lines.count Byte.newline))) := by
  induction h with
  | done blank => exact .done blank
  | @token before gap text rest kind value width tokens blank lexeme _ ih =>
    rw [List.map_cons, ← Token.after_below hl, ← List.append_assoc lines]
    rw [← List.append_assoc lines, ← List.append_assoc lines] at ih
    exact .token blank lexeme ih

theorem newline_not_mem_declaration {first : Byte} {run : List Byte} (start : first.isLetter)
    (word : ∀ b ∈ run, b.isWord) : Byte.newline ∉ first :: run ++ [Byte.colon] := by
  have inside : ∀ b ∈ first :: run, b.isWord :=
    List.forall_mem_cons.2 ⟨Byte.isWord_of_isLetter start, word⟩
  intro hm
  rcases List.mem_append.1 hm with hm | hm
  · exact absurd (inside _ hm) (by decide)
  · exact absurd hm (by decide)

/-- A lexeme with a newline in it is a newline itself, or a string that takes the newline for its
end whatever follows. -/
theorem Lexeme.of_newline_mem (h : Lexeme kind value width text rest)
    (hm : Byte.newline ∈ text) :
    (∃ run, kind = .newline ∧ value = none ∧ width = 0 ∧ text = Byte.newline :: run ∧
      Longest Byte.isLayout run rest) ∨
    ∀ more, Lexeme kind value width text more := by
  cases h with
  | newline layout => exact .inl ⟨_, rfl, rfl, rfl, rfl, layout⟩
  | string inside closes => exact .inr fun _ => .string inside closes
  | openString inside => exact absurd hm (Lexer.newline_not_mem_of_inside inside)
  | comment line => exact absurd hm (line.newline_not_mem_cons rfl (by decide))
  | atom start name _ =>
    have word := name.cons (Byte.isWord_of_isAlphanumeric start)
    exact absurd hm (word.newline_not_mem_cons rfl (by decide))
  | keyword start word _ _ | identifier start word _ _ =>
    exact absurd hm ((word.cons (Byte.isWord_of_isLetter start)).newline_not_mem rfl)
  | declaration start word _ _ => exact absurd hm (newline_not_mem_declaration start word)
  | integer start digits _ => exact absurd hm ((digits.cons start).newline_not_mem rfl)
  | @float first whole fraction _ start digits decimals =>
    have inside : ∀ b ∈ first :: whole, b.isDigit := List.forall_mem_cons.2 ⟨start, digits⟩
    rcases List.mem_append.1 hm with hm | hm
    · exact absurd (inside _ hm) (by decide)
    · exact absurd hm (decimals.newline_not_mem_cons rfl (by decide))
  | arrow operators _ | operator operators _ => exact absurd hm (operators.newline_not_mem rfl)
  | mark is =>
    obtain rfl := List.mem_singleton.1 hm
    cases is

theorem Refusal.newline_not_mem {taken : List Byte} (h : Refusal taken rest) :
    Byte.newline ∉ taken := by
  cases h with
  | start _ _ => exact List.not_mem_nil
  | atomStart _ => decide
  | atomEnd start name _ =>
    have word := name.cons (Byte.isWord_of_isAlphanumeric start)
    exact word.newline_not_mem_cons rfl (by decide)
  | keyword start word _ _ =>
    exact (word.cons (Byte.isWord_of_isLetter start)).newline_not_mem rfl
  | declaration start word _ _ => exact newline_not_mem_declaration start word

/-- Only a token that was begun on the last line could be blocked by the end of input. -/
theorem Blocked.not_wholeLines {consumed : List Byte} (h : Blocked consumed []) :
    ¬WholeLines consumed := by
  generalize hr : [] = rest at h
  induction h with
  | here _ refusal =>
    subst hr
    intro breaks
    have taken := breaks.of_append
    rcases taken with rfl | hl
    · cases refusal
    · exact refusal.newline_not_mem (List.mem_of_getLast? hl)
  | later _ _ _ ih => exact fun breaks => ih hr breaks.of_append

/-- A lexeme that ends a line goes on with the blanks that the next line begins with, or with
nothing. -/
theorem Lexeme.exists_of_ends_line {next : List Byte} (h : Lexeme kind value width text [])
    (hl : text.getLast? = some Byte.newline)
    (hn : (next.dropWhile Byte.isBlank).head? ≠ some Byte.newline) :
    ∃ blanks rest, next = blanks ++ rest ∧ (∀ b ∈ blanks, b.isBlank) ∧
      Lexeme kind value width (text ++ blanks) rest := by
  obtain ⟨run, rfl, rfl, rfl, rfl, layout⟩ | whatever :=
    h.of_newline_mem (List.mem_of_getLast? hl)
  · have blanks := Longest.of_takeWhile Byte.isBlank next
    refine ⟨_, _, List.takeWhile_append_dropWhile.symm, blanks.inside, .newline ⟨?_, ?_⟩⟩
    · refine List.forall_mem_append.2 ⟨layout.inside, ?_⟩
      exact fun b hb => Byte.isLayout_of_isBlank (blanks.inside b hb)
    · intro b hb
      have other : b ≠ Byte.newline := fun he => hn (he ▸ hb)
      simp [Byte.isLayout, blanks.stops b hb, other]
  · exact ⟨[], next, rfl, by simp, by rw [List.append_nil]; exact whatever next⟩

namespace Lexer

/-- Blanks in front are passed over. -/
theorem tokens_of_blanks (blank : ∀ b ∈ gap, b.isBlank) (rest : List Byte) :
    (between file before (gap ++ rest)).tokens = (between file (before ++ gap) rest).tokens := by
  have more := Longest.of_takeWhile Byte.isBlank rest
  rw [← List.takeWhile_append_dropWhile (p := Byte.isBlank) (l := rest)]
  generalize rest.takeWhile Byte.isBlank = gap', rest.dropWhile Byte.isBlank = rest at more
  have all : Longest Byte.isBlank (gap ++ gap') rest :=
    ⟨List.forall_mem_append.2 ⟨blank, more.inside⟩, more.stops⟩
  apply tokens_congr
  rw [← List.append_assoc, readToken_between all, readToken_between more, List.append_assoc]

/-- Whole lines that fall into tokens are followed by whatever tokens the next lines give. -/
theorem tokens_of_decomposed_append {first second : List Byte} {tokens : List Token}
    (h : Decomposed file before first tokens) (breaks : WholeLines first)
    (next : (second.dropWhile Byte.isBlank).head? ≠ some Byte.newline) :
    (between file before (first ++ second)).tokens =
      (between file (before ++ first) second).tokens.map (tokens ++ ·) := by
  induction h with
  | @done before gap blank =>
    -- blanks alone are no whole line
    have nothing : gap = [] := by
      rcases breaks with rfl | hl
      · rfl
      · exact absurd (blank _ (List.mem_of_getLast? hl)) (by decide)
    rw [nothing, List.nil_append, List.append_nil]
    exact (congrFun Except.map_id _).symm
  | @token before gap text rest kind value width tokens blank lexeme more ih =>
    by_cases hr : rest = []
    · subst hr
      have last : tokens = [] :=
        Except.ok.inj ((tokens_of_decomposed more).symm.trans (tokens_of_current_none rfl))
      rw [List.append_nil] at breaks ⊢
      have ends := breaks.of_append.getLast?_eq lexeme.text_ne_nil
      obtain ⟨blanks, rest, rfl, inside, lexeme⟩ := lexeme.exists_of_ends_line ends next
      have whole : gap ++ text ++ (blanks ++ rest) = gap ++ (text ++ blanks) ++ rest := by simp
      rw [whole, tokens_of_lexeme blank lexeme, tokens_of_blanks inside, last]
      simp only [List.append_assoc]
      rfl
    · have lexeme : Lexeme kind value width text (rest ++ second) :=
        lexeme.congr_rest (by simpa using head?_append_congr hr [] second)
      rw [List.append_assoc, tokens_of_lexeme blank lexeme, ih breaks.of_append]
      simp only [List.append_assoc]
      cases (between file (before ++ (gap ++ (text ++ rest))) second).tokens <;> rfl

/-- Bytes after whole lines give what they give alone, so many lines further down. -/
theorem tokens_of_lines (breaks : WholeLines lines) (bytes : List Byte) :
    (∀ tokens, tokensOf file bytes = .ok tokens → (between file lines bytes).tokens =
      .ok (tokens.map (Token.below (lines.count Byte.newline)))) ∧
    ∀ d, tokensOf file bytes = .error d → (between file lines bytes).tokens =
      .error (d.below (lines.count Byte.newline)) := by
  constructor
  · intro tokens h
    have moved := (decomposed_of_tokensOf h).after_lines breaks
    rw [List.append_nil] at moved
    exact tokens_of_decomposed moved
  · intro d h
    obtain ⟨consumed, rest, rfl, hb, rfl⟩ := blocked_of_tokensOf h
    rw [tokens_of_blocked hb, faultAfter, breaks.after_append]
    rfl

theorem tokensOf_append_of_error {first : List Byte} {d : Diagnostic}
    (h : tokensOf file first = .error d) (breaks : WholeLines first) (second : List Byte) :
    tokensOf file (first ++ second) = .error d := by
  obtain ⟨consumed, rest, rfl, hb, rfl⟩ := blocked_of_tokensOf h
  cases rest with
  | nil =>
    rw [List.append_nil] at breaks
    exact absurd breaks hb.not_wholeLines
  | cons b rest =>
    -- the byte that blocks is still there, and nothing after it is looked at
    have blocked : Blocked consumed (b :: rest ++ second) := hb.congr_rest rfl
    rw [List.append_assoc, tokensOf_eq, tokens_of_blocked blocked]
    rfl

/-- A line break separates what is before it from what is after it: the lines before give their
tokens or their fault, and what follows gives its own, as many lines further down. -/
theorem tokensOf_append {first second : List Byte} (breaks : WholeLines first)
    (next : (second.dropWhile Byte.isBlank).head? ≠ some Byte.newline) :
    (∀ d, tokensOf file first = .error d → tokensOf file (first ++ second) = .error d) ∧
    ∀ tokens, tokensOf file first = .ok tokens →
      (∀ more, tokensOf file second = .ok more → tokensOf file (first ++ second) =
        .ok (tokens ++ more.map (Token.below (first.count Byte.newline)))) ∧
      ∀ d, tokensOf file second = .error d → tokensOf file (first ++ second) =
        .error (d.below (first.count Byte.newline)) := by
  refine ⟨fun d h => tokensOf_append_of_error h breaks second, ?_⟩
  intro tokens h
  have whole := tokens_of_decomposed_append (decomposed_of_tokensOf h) breaks next
  rw [← tokensOf_eq, List.nil_append] at whole
  obtain ⟨accepted, refused⟩ := @tokens_of_lines file _ breaks second
  constructor
  · intro more hm
    rw [whole, accepted more hm]
    rfl
  · intro d hd
    rw [whole, refused d hd]
    rfl

/-- A string that the break closes, and a fault after the indentation of the next line. -/
theorem tokensOf_append_open_string :
    let first := Text.Utf8.encode "ret\n\"open\n"
    let second := Text.Utf8.encode "\t end@"
    WholeLines first ∧ (second.dropWhile Byte.isBlank).head? ≠ some Byte.newline ∧
      tokensOf "x" (first ++ second) = .error ⟨.invalidToken "@", ⟨"x", 3, 6⟩⟩ := by
  intro first second
  have breaks : WholeLines first := .inr (by decide)
  have next : (second.dropWhile Byte.isBlank).head? ≠ some Byte.newline := by decide
  have accepted : tokensOf "x" (Text.Utf8.encode "ret\n\"open\n") =
      .ok [⟨.functionReturn, none, "x", 1, 1, 4⟩, ⟨.newline, none, "x", 1, 4, 4⟩,
        ⟨.string, some "open", "x", 2, 1, 7⟩] := by
    with_unfolding_all rfl
  have refused : tokensOf "x" (Text.Utf8.encode "\t end@") =
      .error ⟨.invalidToken "@", ⟨"x", 1, 6⟩⟩ := by
    with_unfolding_all rfl
  have lines : first.count Byte.newline = 2 := by decide
  have whole := ((tokensOf_append breaks next).2 _ accepted).2 _ refused
  rw [lines] at whole
  exact ⟨breaks, next, whole⟩

end Lexer

end DefLang
