import DefLang.Lexer.Lexeme
import DefLang.Proofs.Lexer.Place

namespace DefLang

open Text.Utf8 (lossy)
open Position (lineAfter columnAfter)

/-- The run is all that is accepted at the start of the run and what follows it. -/
structure Longest (accept : Byte → Bool) (run rest : List Byte) : Prop where
  inside : ∀ b ∈ run, accept b
  stops : ∀ b ∈ rest.head?, accept b = false

/-- Kind, value and width of the token that some bytes are, when others follow. The width is how far
its end column is from its start. -/
inductive Lexeme : Kind → Option String → Nat → List Byte → List Byte → Prop
  | newline {run rest} (layout : Longest Byte.isLayout run rest) :
      Lexeme .newline none 0 (Byte.newline :: run) rest
  | comment {run rest} (line : Longest (· != Byte.newline) run rest) :
      Lexeme .comment (some (lossy (Byte.hash :: run))) (run.length + 1) (Byte.hash :: run) rest
  | atom {first run rest} (start : first.isAlphanumeric) (name : Longest Byte.isWord run rest)
      (next : rest.head? ∈ Followers.spacing) :
      Lexeme .atom (some (lossy (Byte.colon :: first :: run))) (run.length + 2)
        (Byte.colon :: first :: run) rest
  | keyword {first run rest} {k : Keyword} (start : first.isLetter)
      (word : Longest Byte.isWord run rest)
      (reserved : Keyword.ofWord? (lossy (first :: run)) = some k)
      (next : rest.head? ∈ k.followers) :
      Lexeme k.kind k.value (run.length + 1) (first :: run) rest
  | declaration {first run rest} (start : first.isLetter) (word : ∀ b ∈ run, b.isWord)
      (free : Keyword.ofWord? (lossy (first :: run)) = none)
      (next : rest.head? ∈ Followers.spacing) :
      Lexeme .declaration (some (lossy (first :: run) ++ ":")) (run.length + 1)
        (first :: run ++ [Byte.colon]) rest
  | identifier {first run rest} (start : first.isLetter) (word : Longest Byte.isWord run rest)
      (free : Keyword.ofWord? (lossy (first :: run)) = none) (next : rest.head? ≠ some Byte.colon) :
      Lexeme .identifier (some (lossy (first :: run))) (run.length + 1) (first :: run) rest
  | integer {first run rest} (start : first.isDigit) (digits : Longest Byte.isDigit run rest)
      (next : rest.head? ≠ some Byte.dot) :
      Lexeme .integer (some (lossy (first :: run))) (run.length + 1) (first :: run) rest
  | float {first whole fraction rest} (start : first.isDigit) (digits : ∀ b ∈ whole, b.isDigit)
      (decimals : Longest Byte.isDigit fraction rest) :
      Lexeme .float (some (lossy (first :: whole ++ Byte.dot :: fraction)))
        (whole.length + fraction.length + 2) (first :: whole ++ Byte.dot :: fraction) rest
  | string {body rest} {closing : Byte} (inside : ∀ b ∈ body, b ≠ Byte.quote ∧ b ≠ Byte.newline)
      (closes : closing = Byte.quote ∨ closing = Byte.newline) :
      Lexeme .string (some (lossy body)) (body.length + 2) (Byte.quote :: body ++ [closing]) rest
  | openString {body} (inside : ∀ b ∈ body, b ≠ Byte.quote ∧ b ≠ Byte.newline) :
      Lexeme .string (some (lossy body)) (body.length + 2) (Byte.quote :: body) []
  | arrow {first run rest} (operators : Longest Byte.isOperator (first :: run) rest)
      (reads : lossy (first :: run) = "->") :
      Lexeme .arrow (some "->") (run.length + 1) (first :: run) rest
  | operator {first run rest} (operators : Longest Byte.isOperator (first :: run) rest)
      (reads : lossy (first :: run) ≠ "->") :
      Lexeme .operator (some (lossy (first :: run))) (run.length + 1) (first :: run) rest
  | mark {b rest} {kind : Kind} (is : Kind.ofMark? b = some kind) :
      Lexeme kind (some (lossy [b])) 1 [b] rest

def IsOpenString (text : List Byte) : Prop :=
  ∃ body, text = Byte.quote :: body ∧ ∀ b ∈ body, b ≠ Byte.quote ∧ b ≠ Byte.newline

def Token.after (file : String) (before : List Byte) (kind : Kind) (value : Option String)
    (width : Nat) : Token :=
  ⟨kind, value, file, lineAfter before, columnAfter before, columnAfter before + width⟩

/-- The tokens that some bytes fall into, after those before them: blanks and lexemes in turn, each
token at the true place of its first byte. -/
inductive Decomposed (file : String) : List Byte → List Byte → List Token → Prop
  | done {before gap} (blank : ∀ b ∈ gap, b.isBlank) : Decomposed file before gap []
  | token {before gap text rest kind value width tokens} (blank : ∀ b ∈ gap, b.isBlank)
      (lexeme : Lexeme kind value width text rest)
      (more : Decomposed file (before ++ gap ++ text) rest tokens) :
      Decomposed file before (gap ++ text ++ rest)
        (Token.after file (before ++ gap) kind value width :: tokens)

namespace Longest

variable {accept : Byte → Bool} {run rest : List Byte}

theorem of_takeWhile (accept : Byte → Bool) (bytes : List Byte) :
    Longest accept (bytes.takeWhile accept) (bytes.dropWhile accept) := by
  constructor
  · intro b hb
    exact List.all_eq_true.1 List.all_takeWhile b hb
  · intro b hb
    have h := List.head?_dropWhile_not accept bytes
    rwa [Option.mem_def.1 hb] at h

theorem congr_rest {rest' : List Byte} (h : Longest accept run rest)
    (hr : rest.head? = rest'.head?) : Longest accept run rest' :=
  ⟨h.inside, hr ▸ h.stops⟩

theorem cons {b : Byte} (hb : accept b) (h : Longest accept run rest) :
    Longest accept (b :: run) rest :=
  ⟨List.forall_mem_cons.2 ⟨hb, h.inside⟩, h.stops⟩

theorem tail {b : Byte} (h : Longest accept (b :: run) rest) : Longest accept run rest :=
  ⟨fun c hc => h.inside c (List.mem_cons_of_mem b hc), h.stops⟩

theorem of_nil (h : ∀ b ∈ run, accept b) : Longest accept run [] :=
  ⟨h, fun _ hb => by cases hb⟩

theorem of_cons {b : Byte} (h : ∀ c ∈ run, accept c) (hb : accept b = false) :
    Longest accept run (b :: rest) :=
  ⟨h, by rintro c ⟨⟩; exact hb⟩

theorem newline_not_mem (h : Longest accept run rest) (hn : accept Byte.newline = false) :
    Byte.newline ∉ run := by
  intro hm
  simp [h.inside _ hm] at hn

theorem newline_not_mem_cons {b : Byte} (h : Longest accept run rest)
    (hn : accept Byte.newline = false) (hb : b ≠ Byte.newline) : Byte.newline ∉ b :: run :=
  fun hm => h.newline_not_mem hn (List.mem_of_ne_of_mem hb.symm hm)

theorem dropWhile_append (h : Longest accept run rest) : (run ++ rest).dropWhile accept = rest := by
  rw [List.dropWhile_append_of_pos h.inside]
  cases rest with
  | nil => rfl
  | cons b rest => rw [List.dropWhile_cons_of_neg (by simp [h.stops b rfl])]

end Longest

namespace Lexeme

variable {kind : Kind} {value : Option String} {width : Nat} {text rest : List Byte}

theorem text_ne_nil (h : Lexeme kind value width text rest) : text ≠ [] := by
  cases h <;> simp

theorem width_le (h : Lexeme kind value width text rest) : width ≤ text.length + 1 := by
  cases h <;> simp only [List.length_append, List.length_cons, List.length_nil] <;> omega

/-- Only the end of input leaves a string without its terminator. -/
theorem of_quote {body : List Byte} (h : Lexeme kind value width (Byte.quote :: body) rest)
    (inside : ∀ b ∈ body, b ≠ Byte.quote ∧ b ≠ Byte.newline) :
    kind = .string ∧ value = some (lossy body) ∧ width = body.length + 2 ∧ rest = [] := by
  generalize hq : Byte.quote :: body = text at h
  cases h with
  | openString _ =>
    obtain rfl := List.tail_eq_of_cons_eq hq
    exact ⟨rfl, rfl, rfl, rfl⟩
  | @string inner _ closing _ closes =>
    have last : closing ∈ body := by
      rw [List.tail_eq_of_cons_eq hq]
      exact List.mem_append_right inner List.mem_cons_self
    obtain ⟨notQuote, notNewline⟩ := inside closing last
    exact (closes.elim notQuote notNewline).elim
  | keyword start _ _ _ | identifier start _ _ _ | declaration start _ _ _ | integer start _ _
  | float start _ _ =>
    rw [← List.head_eq_of_cons_eq hq] at start
    cases start
  | arrow operators _ | operator operators _ =>
    have start := operators.inside _ List.mem_cons_self
    rw [← List.head_eq_of_cons_eq hq] at start
    cases start
  | mark is =>
    rw [← List.head_eq_of_cons_eq hq] at is
    cases is
  | newline _ | comment _ | atom _ _ _ => cases hq

/-- Of what follows only the first byte counts. -/
theorem congr_rest {rest' : List Byte} (h : Lexeme kind value width text rest)
    (hr : rest.head? = rest'.head?) : Lexeme kind value width text rest' := by
  cases h with
  | newline layout => exact .newline (layout.congr_rest hr)
  | comment line => exact .comment (line.congr_rest hr)
  | atom start name next => exact .atom start (name.congr_rest hr) (hr ▸ next)
  | keyword start word reserved next =>
    exact .keyword start (word.congr_rest hr) reserved (hr ▸ next)
  | declaration start word free next => exact .declaration start word free (hr ▸ next)
  | identifier start word free next =>
    exact .identifier start (word.congr_rest hr) free (hr ▸ next)
  | integer start digits next => exact .integer start (digits.congr_rest hr) (hr ▸ next)
  | float start digits decimals => exact .float start digits (decimals.congr_rest hr)
  | string inside closes => exact .string inside closes
  | openString inside =>
    cases rest' with
    | nil => exact .openString inside
    | cons b rest' => cases hr
  | arrow operators reads => exact .arrow (operators.congr_rest hr) reads
  | operator operators reads => exact .operator (operators.congr_rest hr) reads
  | mark is => exact .mark is

end Lexeme

namespace Decomposed

variable {file : String} {before bytes : List Byte} {tokens : List Token}

/-- Blanks in front go into the first gap. -/
theorem blank_append {blanks : List Byte} (blank : ∀ b ∈ blanks, b.isBlank)
    (h : Decomposed file (before ++ blanks) bytes tokens) :
    Decomposed file before (blanks ++ bytes) tokens := by
  generalize hb : before ++ blanks = start at h
  cases h with
  | done rest => exact .done (List.forall_mem_append.2 ⟨blank, rest⟩)
  | @token _ gap text rest _ _ _ tokens inside lexeme more =>
    subst hb
    have all := List.forall_mem_append.2 ⟨blank, inside⟩
    rw [List.append_assoc before blanks gap] at more ⊢
    have h := Decomposed.token all lexeme more
    rwa [List.append_assoc blanks gap text, List.append_assoc blanks] at h

/-- No place is further than two past the number of bytes. -/
theorem places_le (h : Decomposed file before bytes tokens) :
    ∀ t ∈ tokens, t.line ≤ (before ++ bytes).length + 1 ∧ t.start ≤ t.stop ∧
      t.stop ≤ (before ++ bytes).length + 2 := by
  induction h with
  | done _ => simp
  | @token before gap text rest kind value width tokens _ lexeme _ ih =>
    have line := Position.lineAfter_le (before ++ gap)
    have column := Position.columnAfter_le (before ++ gap)
    have hw := lexeme.width_le
    simp only [List.length_append] at line column ih ⊢
    intro t ht
    rcases List.mem_cons.1 ht with rfl | ht
    · dsimp only [Token.after]
      omega
    · have := ih t ht
      omega

/-- No two tokens begin at one byte. -/
theorem length_le (h : Decomposed file before bytes tokens) : tokens.length ≤ bytes.length := by
  induction h with
  | done _ => exact Nat.zero_le _
  | token _ lexeme _ ih =>
    have takes := List.length_pos_iff.2 lexeme.text_ne_nil
    simp only [List.length_append, List.length_cons]
    omega

/-- Each token is some lexeme of the bytes, at its true place. -/
theorem exists_lexeme_of_mem {t : Token} (h : Decomposed file before bytes tokens)
    (mem : t ∈ tokens) :
    ∃ front kind value width text rest, bytes = front ++ (text ++ rest) ∧
      Lexeme kind value width text rest ∧
      t = Token.after file (before ++ front) kind value width := by
  induction h with
  | done _ => cases mem
  | @token _ gap text rest _ _ _ _ _ lexeme _ ih =>
    rcases List.mem_cons.1 mem with rfl | mem
    · exact ⟨gap, _, _, _, text, rest, List.append_assoc .., lexeme, rfl⟩
    · obtain ⟨front, _, _, _, text', rest', rfl, lexeme', rfl⟩ := ih mem
      refine ⟨gap ++ text ++ front, _, _, _, text', rest', (List.append_assoc ..).symm, lexeme', ?_⟩
      rw [List.append_assoc, List.append_assoc, List.append_assoc]

end Decomposed

end DefLang
