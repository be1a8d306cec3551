import DefLang.Proofs.Lexer.ByteClass
import DefLang.Proofs.Lexer.Cursor

namespace DefLang.Lexer

open Text.Utf8 (lossy)
open Position (lineAfter columnAfter)

variable {file : String} {before : List Byte} {start : Lexer} {first b : Byte}
  {run rest : List Byte}

theorem newline_between (h : Longest Byte.isLayout run rest) :
    start.newline (between file before (run ++ rest)) =
      .ok (start.token .newline none start.column) (between file (before ++ run) rest) := by
  rw [Lexer.newline, bind_eq_of_ok (takeWhile_between h)]
  rfl

theorem comment_between (h : Longest (· != Byte.newline) run rest) :
    start.comment b (between file before (run ++ rest)) =
      .ok (start.token .comment (some (lossy (b :: run))) (columnAfter (before ++ run)))
        (between file (before ++ run) rest) := by
  rw [Lexer.comment, bind_eq_of_ok (takeWhile_between h), close_between]

theorem atom_between (hf : first.isAlphanumeric) (h : Longest Byte.isWord run rest)
    (hn : rest.head? ∈ Followers.spacing) :
    start.atom b (between file before (first :: run ++ rest)) =
      .ok (start.token .atom (some (lossy (b :: first :: run)))
        (columnAfter (before ++ first :: run))) (between file (before ++ first :: run) rest) := by
  have hw : Longest Byte.isWord (first :: run) rest := h.cons (Byte.isWord_of_isAlphanumeric hf)
  rw [Lexer.atom, bind_get]
  dsimp only
  rw [if_pos (by simpa [current_between] using hf), bind_eq_of_ok (takeWhile_between hw),
    bind_eq_of_ok (requireFollower_of_mem hn), close_between]

theorem string_between (h : ∀ b ∈ run, b ≠ Byte.quote ∧ b ≠ Byte.newline)
    (hc : b = Byte.quote ∨ b = Byte.newline) :
    start.string (between file before (run ++ b :: rest)) =
      .ok (start.token .string (some (lossy run)) (columnAfter (before ++ run) + 1))
        (between file (before ++ run ++ [b]) rest) := by
  have hl : Longest (fun b => b != Byte.quote && b != Byte.newline) run (b :: rest) := by
    apply Longest.of_cons
    · intro c hc
      simpa using h c hc
    · simpa [Classical.or_iff_not_imp_left] using hc
  rw [Lexer.string, bind_eq_of_ok (takeWhile_between hl), bind_get,
    bind_eq_of_ok (readByte_between b rest)]
  rfl

theorem newline_not_mem_of_inside (h : ∀ b ∈ run, b ≠ Byte.quote ∧ b ≠ Byte.newline) :
    Byte.newline ∉ Byte.quote :: run :=
  fun hm => (h _ (List.mem_of_ne_of_mem (by decide) hm)).2 rfl

/-- Without a terminator the string steps over the end of input. -/
theorem string_of_end (h : ∀ b ∈ run, b ≠ Byte.quote ∧ b ≠ Byte.newline) :
    start.string (between file before (run ++ [])) =
      .ok (start.token .string (some (lossy run)) (columnAfter (before ++ run) + 1))
        (pastEnd file (before ++ run)) := by
  have hl : Longest (fun b => b != Byte.quote && b != Byte.newline) run [] :=
    .of_nil fun c hc => by simpa using h c hc
  rw [Lexer.string, bind_eq_of_ok (takeWhile_between hl), bind_get]
  rfl

theorem word_of_keyword {k : Keyword} (h : Longest Byte.isWord run rest)
    (hk : Keyword.ofWord? (lossy (b :: run)) = some k) (hn : rest.head? ∈ k.followers) :
    start.word b (between file before (run ++ rest)) =
      .ok (start.token k.kind k.value (columnAfter (before ++ run)))
        (between file (before ++ run) rest) := by
  rw [Lexer.word, bind_eq_of_ok (takeWhile_between h)]
  simp only [hk]
  rw [bind_eq_of_ok (requireFollower_of_mem hn), bind_get]
  rfl

theorem word_of_colon (hw : ∀ b ∈ run, b.isWord)
    (hk : Keyword.ofWord? (lossy (b :: run)) = none) (hn : rest.head? ∈ Followers.spacing) :
    start.word b (between file before (run ++ Byte.colon :: rest)) =
      .ok (start.token .declaration (some (lossy (b :: run) ++ ":")) (columnAfter (before ++ run)))
        (between file (before ++ run ++ [Byte.colon]) rest) := by
  have h : Longest Byte.isWord run (Byte.colon :: rest) := .of_cons hw rfl
  rw [Lexer.word, bind_eq_of_ok (takeWhile_between h)]
  simp only [hk]
  rw [bind_get, current_between, if_pos List.head?_cons, bind_eq_of_ok (readByte_between _ _),
    bind_eq_of_ok (requireFollower_of_mem hn)]
  rfl

theorem word_of_name (h : Longest Byte.isWord run rest)
    (hk : Keyword.ofWord? (lossy (b :: run)) = none) (hn : rest.head? ≠ some Byte.colon) :
    start.word b (between file before (run ++ rest)) =
      .ok (start.token .identifier (some (lossy (b :: run))) (columnAfter (before ++ run)))
        (between file (before ++ run) rest) := by
  rw [Lexer.word, bind_eq_of_ok (takeWhile_between h)]
  simp only [hk]
  rw [bind_get, current_between, if_neg hn, close_between]

theorem number_of_digits (h : Longest Byte.isDigit run rest) (hn : rest.head? ≠ some Byte.dot) :
    start.number b (between file before (run ++ rest)) =
      .ok (start.token .integer (some (lossy (b :: run))) (columnAfter (before ++ run)))
        (between file (before ++ run) rest) := by
  rw [Lexer.number, bind_eq_of_ok (takeWhile_between h), bind_get, current_between, if_neg hn,
    close_between]

theorem number_of_dot {fraction : List Byte} (hd : ∀ b ∈ run, b.isDigit)
    (h : Longest Byte.isDigit fraction rest) :
    start.number b (between file before (run ++ Byte.dot :: (fraction ++ rest))) =
      .ok (start.token .float (some (lossy (b :: run ++ Byte.dot :: fraction)))
        (columnAfter (before ++ run ++ [Byte.dot] ++ fraction)))
        (between file (before ++ run ++ [Byte.dot] ++ fraction) rest) := by
  have hl : Longest Byte.isDigit run (Byte.dot :: (fraction ++ rest)) := .of_cons hd rfl
  rw [Lexer.number, bind_eq_of_ok (takeWhile_between hl), bind_get, current_between,
    if_pos List.head?_cons, bind_eq_of_ok (readByte_between _ _),
    bind_eq_of_ok (takeWhile_between h), close_between]

theorem operator_between (h : Longest Byte.isOperator run rest) :
    start.operator b (between file before (run ++ rest)) =
      .ok (start.token (if lossy (b :: run) = "->" then .arrow else .operator)
        (some (lossy (b :: run))) (columnAfter (before ++ run)))
        (between file (before ++ run) rest) := by
  rw [Lexer.operator, bind_eq_of_ok (takeWhile_between h), close_between]

/-- A byte that begins a token is read before the rest of the token is. -/
theorem tokenAt_of_lead {lead : Lead} (hl : Lead.ofByte? b = some lead) :
    tokenAt (between file before (b :: rest)) (between file before (b :: rest)) =
      (between file before (b :: rest)).lexeme b lead (between file (before ++ [b]) rest) := by
  simp only [tokenAt, current_between, List.head?_cons, hl]
  rw [bind_eq_of_ok (readByte_between b rest)]

/-- Reading a token, from what its lead makes of the bytes after the first one. -/
theorem tokenAt_of_lexeme_eq {lead : Lead} {kind : Kind} {value : Option String}
    {stop width : Nat} {bytes : List Byte} {l : Lexer} (hl : Lead.ofByte? b = some lead)
    (hs : stop = columnAfter before + width)
    (h : (between file before (b :: bytes)).lexeme b lead (between file (before ++ [b]) bytes) =
      .ok ((between file before (b :: bytes)).token kind value stop) l) :
    tokenAt (between file before (b :: bytes)) (between file before (b :: bytes)) =
      .ok (Token.after file before kind value width) l := by
  rw [tokenAt_of_lead hl, h, hs]
  rfl

/-- The lexer stands between these bytes, as far as it matters: where none are left, its column may
be one too far. -/
def Stands (l : Lexer) (file : String) (before rest : List Byte) : Prop :=
  l = between file before rest ∨ rest = [] ∧ l = pastEnd file before

/-- A lexeme is read as the token that it is, and all of it. -/
theorem tokenAt_of_closed {kind : Kind} {value : Option String} {width : Nat} {text : List Byte}
    (h : Lexeme kind value width text rest) (closed : ¬IsOpenString text) :
    tokenAt (between file before (text ++ rest)) (between file before (text ++ rest)) =
      .ok (Token.after file before kind value width) (between file (before ++ text) rest) := by
  -- within a line the column grows by one for each byte
  have stop {text : List Byte} (hn : Byte.newline ∉ text) :
      columnAfter (before ++ text) = columnAfter before + text.length :=
    Position.columnAfter_append_of_not_mem before hn
  cases h with
  | @newline run _ layout =>
    refine tokenAt_of_lexeme_eq rfl rfl ?_
    rw [List.append_cons before _ run]
    exact newline_between layout
  | @comment run _ line =>
    have hn : Byte.newline ∉ Byte.hash :: run := line.newline_not_mem_cons rfl (by decide)
    refine tokenAt_of_lexeme_eq rfl (stop hn) ?_
    rw [List.append_cons before _ run]
    exact comment_between line
  | @atom first run _ start name next =>
    have hw : Longest Byte.isWord (first :: run) rest :=
      name.cons (Byte.isWord_of_isAlphanumeric start)
    have hn : Byte.newline ∉ Byte.colon :: first :: run :=
      hw.newline_not_mem_cons rfl (by decide)
    refine tokenAt_of_lexeme_eq rfl (stop hn) ?_
    rw [List.append_cons before _ (first :: run)]
    exact atom_between start name next
  | @keyword first run _ k start word reserved next =>
    have hn : Byte.newline ∉ first :: run :=
      (word.cons (Byte.isWord_of_isLetter start)).newline_not_mem rfl
    refine tokenAt_of_lexeme_eq (Lead.ofByte?_of_isLetter first start) (stop hn) ?_
    rw [List.append_cons before _ run]
    exact word_of_keyword word reserved next
  | @declaration first run _ start word free next =>
    have hn : Byte.newline ∉ first :: run :=
      (Longest.of_nil (List.forall_mem_cons.2
        ⟨Byte.isWord_of_isLetter start, word⟩)).newline_not_mem rfl
    rw [List.append_assoc]
    refine tokenAt_of_lexeme_eq (Lead.ofByte?_of_isLetter first start) (stop hn) ?_
    rw [← List.append_assoc before, List.append_cons before _ run]
    exact word_of_colon word free next
  | @identifier first run _ start word free next =>
    have hn : Byte.newline ∉ first :: run :=
      (word.cons (Byte.isWord_of_isLetter start)).newline_not_mem rfl
    refine tokenAt_of_lexeme_eq (Lead.ofByte?_of_isLetter first start) (stop hn) ?_
    rw [List.append_cons before _ run]
    exact word_of_name word free next
  | @integer first run _ start digits next =>
    have hn : Byte.newline ∉ first :: run := (digits.cons start).newline_not_mem rfl
    refine tokenAt_of_lexeme_eq (Lead.ofByte?_of_isDigit first start) (stop hn) ?_
    rw [List.append_cons before _ run]
    exact number_of_digits digits next
  | @float first whole fraction _ start digits decimals =>
    have hn : Byte.newline ∉ first :: whole ++ Byte.dot :: fraction := by
      have hw := (Longest.of_nil (List.forall_mem_cons.2 ⟨start, digits⟩)).newline_not_mem rfl
      have hf : Byte.newline ∉ Byte.dot :: fraction := decimals.newline_not_mem_cons rfl (by decide)
      exact fun hm => (List.mem_append.1 hm).elim hw hf
    have split : before ++ (first :: whole ++ Byte.dot :: fraction) =
        before ++ [first] ++ whole ++ [Byte.dot] ++ fraction := by simp
    rw [List.append_assoc]
    refine tokenAt_of_lexeme_eq (Lead.ofByte?_of_isDigit first start)
      ((stop hn).trans (by simp; omega)) ?_
    rw [split]
    exact number_of_dot digits decimals
  | @string body _ closing inside closes =>
    have split : before ++ (Byte.quote :: body ++ [closing]) =
        before ++ [Byte.quote] ++ body ++ [closing] := by simp
    rw [List.append_assoc]
    refine tokenAt_of_lexeme_eq rfl
      (congrArg (· + 1) (stop (newline_not_mem_of_inside inside))) ?_
    rw [split, List.append_cons before _ body]
    exact string_between inside closes
  | @openString body inside => exact absurd ⟨body, rfl, inside⟩ closed
  | @arrow first run _ operators reads =>
    have hf : first.isOperator := operators.inside first List.mem_cons_self
    refine tokenAt_of_lexeme_eq (Lead.ofByte?_of_isOperator first hf)
      (stop (operators.newline_not_mem rfl)) ?_
    rw [List.append_cons before _ run, ← reads]
    exact (operator_between operators.tail).trans (by rw [if_pos reads])
  | @operator first run _ operators reads =>
    have hf : first.isOperator := operators.inside first List.mem_cons_self
    refine tokenAt_of_lexeme_eq (Lead.ofByte?_of_isOperator first hf)
      (stop (operators.newline_not_mem rfl)) ?_
    rw [List.append_cons before _ run]
    exact (operator_between operators.tail).trans (by rw [if_neg reads])
  | @mark b _ kind is =>
    have hn : Byte.newline ∉ [b] := by
      intro hm
      obtain rfl := List.mem_singleton.1 hm
      cases is
    exact tokenAt_of_lexeme_eq (Lead.ofByte?_of_ofMark? b kind is) (stop hn) rfl

/-- A string that the end of input cuts off is read as well, but the column still counts the
terminator. -/
theorem tokenAt_of_openString {body : List Byte}
    (inside : ∀ b ∈ body, b ≠ Byte.quote ∧ b ≠ Byte.newline) :
    tokenAt (between file before (Byte.quote :: body)) (between file before (Byte.quote :: body)) =
      .ok (Token.after file before .string (some (lossy body)) (body.length + 2))
        (pastEnd file (before ++ Byte.quote :: body)) := by
  have stop := Position.columnAfter_append_of_not_mem before (newline_not_mem_of_inside inside)
  have read := @string_of_end file (before ++ [Byte.quote])
    (between file before (Byte.quote :: body)) body inside
  rw [List.append_nil, ← List.append_cons] at read
  exact tokenAt_of_lexeme_eq rfl (congrArg (· + 1) stop) read

/-- The lexer reads a lexeme as the token that it is, wherever it is left at the end of input. -/
theorem tokenAt_of_lexeme {kind : Kind} {value : Option String} {width : Nat} {text : List Byte}
    (h : Lexeme kind value width text rest) :
    ∃ l, tokenAt (between file before (text ++ rest)) (between file before (text ++ rest)) =
      .ok (Token.after file before kind value width) l ∧ l.Stands file (before ++ text) rest := by
  by_cases closed : IsOpenString text
  · obtain ⟨body, rfl, inside⟩ := closed
    obtain ⟨rfl, rfl, rfl, rfl⟩ := h.of_quote inside
    rw [List.append_nil]
    exact ⟨_, tokenAt_of_openString inside, .inr ⟨rfl, rfl⟩⟩
  · exact ⟨_, tokenAt_of_closed h closed, .inl rfl⟩

end DefLang.Lexer
