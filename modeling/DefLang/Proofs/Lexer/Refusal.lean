import DefLang.Proofs.Lexer.Reading

namespace DefLang

open Text.Utf8 (lossy)

/-- A token was begun with these bytes, and it cannot go on with what follows. -/
inductive Refusal : List Byte → List Byte → Prop
  | start {b rest} (lead : Lead.ofByte? b = none) (blank : b.isBlank = false) :
      Refusal [] (b :: rest)
  | atomStart {rest} (next : ∀ b ∈ rest.head?, b.isAlphanumeric = false) :
      Refusal [Byte.colon] rest
  | atomEnd {first run rest} (start : first.isAlphanumeric) (name : Longest Byte.isWord run rest)
      (next : rest.head? ∉ Followers.spacing) : Refusal (Byte.colon :: first :: run) rest
  | keyword {first run rest} {k : Keyword} (start : first.isLetter)
      (word : Longest Byte.isWord run rest)
      (reserved : Keyword.ofWord? (lossy (first :: run)) = some k)
      (next : rest.head? ∉ k.followers) : Refusal (first :: run) rest
  | declaration {first run rest} (start : first.isLetter) (word : ∀ b ∈ run, b.isWord)
      (free : Keyword.ofWord? (lossy (first :: run)) = none)
      (next : rest.head? ∉ Followers.spacing) : Refusal (first :: run ++ [Byte.colon]) rest

namespace Refusal

variable {taken rest : List Byte}

/-- Of what follows only the first byte counts. -/
theorem congr_rest {rest' : List Byte} (h : Refusal taken rest) (hr : rest.head? = rest'.head?) :
    Refusal taken rest' := by
  cases h with
  | @start b rest lead blank =>
    obtain ⟨rest', rfl⟩ := List.head?_eq_some_iff.1 hr.symm
    exact .start lead blank
  | atomStart next => exact .atomStart (hr ▸ next)
  | atomEnd start name next => exact .atomEnd start (name.congr_rest hr) (hr ▸ next)
  | keyword start word reserved next =>
    exact .keyword start (word.congr_rest hr) reserved (hr ▸ next)
  | declaration start word free next => exact .declaration start word free (hr ▸ next)

end Refusal

inductive Opening : List Byte → Prop
  | lexeme {kind value width text rest} (h : Lexeme kind value width text rest) :
      Opening (text ++ rest)
  | refusal {taken rest} (h : Refusal taken rest) : Opening (taken ++ rest)

namespace Opening

theorem cons_eq (b : Byte) (accept : Byte → Bool) (bytes : List Byte) :
    b :: bytes = b :: bytes.takeWhile accept ++ bytes.dropWhile accept := by
  rw [List.cons_append, List.takeWhile_append_dropWhile]

theorem of_colon (bytes : List Byte) : Opening (Byte.colon :: bytes) := by
  by_cases hs : ∀ c ∈ bytes.head?, c.isAlphanumeric = false
  · exact .refusal (.atomStart hs)
  · obtain ⟨first, bytes, rfl, hf⟩ :
        ∃ first more, bytes = first :: more ∧ first.isAlphanumeric := by
      cases bytes with
      | nil => simp at hs
      | cons first bytes => exact ⟨first, bytes, rfl, by simpa using hs⟩
    have hw := Longest.of_takeWhile Byte.isWord bytes
    rw [cons_eq first Byte.isWord bytes]
    by_cases hn : (bytes.dropWhile Byte.isWord).head? ∈ Followers.spacing
    · exact .lexeme (.atom hf hw hn)
    · exact .refusal (.atomEnd hf hw hn)

theorem of_quote (bytes : List Byte) : Opening (Byte.quote :: bytes) := by
  have hw := Longest.of_takeWhile (fun b => b != Byte.quote && b != Byte.newline) bytes
  have inside : ∀ b ∈ bytes.takeWhile (fun b => b != Byte.quote && b != Byte.newline),
      b ≠ Byte.quote ∧ b ≠ Byte.newline := fun b hb => by simpa using hw.inside b hb
  rw [cons_eq Byte.quote (fun b => b != Byte.quote && b != Byte.newline) bytes]
  cases hr : bytes.dropWhile (fun b => b != Byte.quote && b != Byte.newline) with
  | nil => exact .lexeme (.openString inside)
  | cons closing rest =>
    have closes : closing = Byte.quote ∨ closing = Byte.newline := by
      have hc := hw.stops closing (by simp [hr])
      simpa [Classical.or_iff_not_imp_left] using hc
    rw [List.append_cons]
    exact .lexeme (.string inside closes)

theorem of_isLetter {b : Byte} (hb : b.isLetter) (bytes : List Byte) : Opening (b :: bytes) := by
  have hw := Longest.of_takeWhile Byte.isWord bytes
  rw [cons_eq b Byte.isWord bytes]
  generalize bytes.takeWhile Byte.isWord = run, bytes.dropWhile Byte.isWord = rest at hw
  -- the whole word decides between keyword and name, and the one byte after it the rest
  cases hk : Keyword.ofWord? (lossy (b :: run)) with
  | some k =>
    by_cases hn : rest.head? ∈ k.followers
    · exact .lexeme (.keyword hb hw hk hn)
    · exact .refusal (.keyword hb hw hk hn)
  | none =>
    by_cases hc : rest.head? = some Byte.colon
    · obtain ⟨rest, rfl⟩ := List.head?_eq_some_iff.1 hc
      rw [List.append_cons]
      by_cases hn : rest.head? ∈ Followers.spacing
      · exact .lexeme (.declaration hb hw.inside hk hn)
      · exact .refusal (.declaration hb hw.inside hk hn)
    · exact .lexeme (.identifier hb hw hk hc)

theorem of_isDigit {b : Byte} (hb : b.isDigit) (bytes : List Byte) : Opening (b :: bytes) := by
  have hw := Longest.of_takeWhile Byte.isDigit bytes
  rw [cons_eq b Byte.isDigit bytes]
  generalize bytes.takeWhile Byte.isDigit = run, bytes.dropWhile Byte.isDigit = rest at hw
  by_cases hd : rest.head? = some Byte.dot
  · -- a float needs no digit after its dot, so nothing can be refused here
    obtain ⟨rest, rfl⟩ := List.head?_eq_some_iff.1 hd
    have hf := Longest.of_takeWhile Byte.isDigit rest
    rw [cons_eq Byte.dot Byte.isDigit rest, ← List.append_assoc]
    exact .lexeme (.float hb hw.inside hf)
  · exact .lexeme (.integer hb hw hd)

theorem of_isOperator {b : Byte} (hb : b.isOperator) (bytes : List Byte) :
    Opening (b :: bytes) := by
  have hw := (Longest.of_takeWhile Byte.isOperator bytes).cons hb
  rw [cons_eq b Byte.isOperator bytes]
  by_cases hr : lossy (b :: bytes.takeWhile Byte.isOperator) = "->"
  · exact .lexeme (.arrow hw hr)
  · exact .lexeme (.operator hw hr)

theorem of_not_blank {b : Byte} (hb : b.isBlank = false) (bytes : List Byte) :
    Opening (b :: bytes) := by
  cases hl : Lead.ofByte? b with
  | none => exact .refusal (.start hl hb)
  | some lead =>
    have hbegins := Lead.begins_of_ofByte? hl
    cases lead with
    | newline =>
      obtain rfl : b = Byte.newline := hbegins
      rw [cons_eq Byte.newline Byte.isLayout bytes]
      exact .lexeme (.newline (.of_takeWhile ..))
    | comment =>
      obtain rfl : b = Byte.hash := hbegins
      rw [cons_eq Byte.hash (· != Byte.newline) bytes]
      exact .lexeme (.comment (.of_takeWhile ..))
    | atom =>
      obtain rfl : b = Byte.colon := hbegins
      exact of_colon bytes
    | string =>
      obtain rfl : b = Byte.quote := hbegins
      exact of_quote bytes
    | word => exact of_isLetter hbegins bytes
    | number => exact of_isDigit hbegins bytes
    | operator => exact of_isOperator hbegins bytes
    | mark kind => exact .lexeme (show Lexeme _ _ _ [b] bytes from .mark hbegins)

end Opening

namespace Lexer

variable {file : String} {before : List Byte}

/-- The lexer refuses what follows, at its true place, and goes no further. -/
theorem tokenAt_of_refusal {taken rest : List Byte} (h : Refusal taken rest) :
    tokenAt (between file before (taken ++ rest)) (between file before (taken ++ rest)) =
      .error (faultAfter file (before ++ taken) rest) (between file (before ++ taken) rest) := by
  cases h with
  | @start b rest lead blank =>
    rw [List.append_nil, List.nil_append]
    simp only [tokenAt, current_between, List.head?_cons, lead]
    rfl
  | atomStart next =>
    have hn : rest.head?.any Byte.isAlphanumeric = false := by
      cases rest with
      | nil => rfl
      | cons b rest => exact next b rfl
    rw [List.cons_append, List.nil_append, tokenAt_of_lead rfl, lexeme, Lexer.atom, bind_get]
    dsimp only
    rw [current_between, if_neg (ne_true_of_eq_false hn), bind_eq_of_error (refuse_between rest)]
  | @atomEnd first run _ start name next =>
    have hw : Longest Byte.isWord (first :: run) rest :=
      name.cons (Byte.isWord_of_isAlphanumeric start)
    rw [List.cons_append, tokenAt_of_lead rfl, lexeme, Lexer.atom, bind_get]
    dsimp only
    rw [if_pos (by simpa [current_between] using start), bind_eq_of_ok (takeWhile_between hw),
      bind_eq_of_error (requireFollower_of_not_mem next), List.append_cons before _ (first :: run)]
  | @keyword first run _ k start word reserved next =>
    rw [List.cons_append, tokenAt_of_lead (Lead.ofByte?_of_isLetter first start), lexeme,
      Lexer.word, bind_eq_of_ok (takeWhile_between word)]
    simp only [reserved]
    rw [bind_eq_of_error (requireFollower_of_not_mem next), List.append_cons before _ run]
  | @declaration first run _ start word free next =>
    have hw : Longest Byte.isWord run (Byte.colon :: rest) := .of_cons word rfl
    have split : before ++ (first :: run ++ [Byte.colon]) =
        before ++ [first] ++ run ++ [Byte.colon] := by simp
    rw [← List.append_cons, List.cons_append,
      tokenAt_of_lead (Lead.ofByte?_of_isLetter first start), lexeme, Lexer.word,
      bind_eq_of_ok (takeWhile_between hw)]
    simp only [free]
    rw [bind_get, current_between, if_pos List.head?_cons, bind_eq_of_ok (readByte_between _ _),
      bind_eq_of_error (requireFollower_of_not_mem next), split]

end Lexer

end DefLang
