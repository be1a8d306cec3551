import DefLang.Proofs.Lexer.Canonical
import DefLang.Tree.Written

namespace DefLang

open Text.Utf8 (encode lossy encode_ascii encode_append encode_ofList_cons lossy_ascii lossy_encode
  toChar_mem_of_mem_encode)

def Sign.text (s : Sign) : String :=
  if s.kind = .newline then "\n" else Mark.word ⟨.nothing, s.kind, s.value⟩

/-- What may be written between a token and the next one. A comment takes everything up to the end
of its line, so nothing can be put after it. -/
structure Apart (kind : Kind) (gap : String) : Prop where
  blank : ∀ c ∈ gap.toList, c = ' ' ∨ c = '\t'
  comment : kind = .comment → gap = ""
  space : kind.isLayout = false → gap.toList.head? = some ' '

inductive Renders : List Sign → String → Prop
  | nil : Renders [] ""
  | cons {s : Sign} {signs : List Sign} {gap text : String} (apart : Apart s.kind gap)
      (more : Renders signs text) : Renders (s :: signs) (s.text ++ gap ++ text)

/-- A space after every token but layout. -/
def render (signs : List Sign) : String :=
  String.join (signs.map fun s => s.text ++ if s.kind.isLayout then "" else " ")

theorem apart_space (kind : Kind) : Apart kind (if kind.isLayout then "" else " ") := by
  split
  · next h => exact ⟨by simp, fun _ => rfl, by simp [h]⟩
  · next h => exact ⟨by simp, by rintro rfl; exact absurd rfl h, fun _ => rfl⟩

theorem renders_render (signs : List Sign) : Renders signs (render signs) := by
  induction signs with
  | nil => exact .nil
  | cons s signs ih =>
    have h := Renders.cons (apart_space s.kind) ih
    simpa [render] using h

theorem Keyword.exists_lexeme {word : String} {k : Keyword} (h : ofWord? word = some k)
    (rest : List Byte) :
    ∃ width, Lexeme k.kind k.value width (encode word) (Byte.space :: rest) := by
  have all : ∀ p ∈ reserved, (encode p.1).head?.any Byte.isLetter ∧
      (encode p.1).tail.all Byte.isWord := by decide
  obtain ⟨start, inside⟩ := all _ (mem_of_ofWord? h)
  have next := space_mem_followers h
  rw [← lossy_encode word] at h
  dsimp only at start inside
  cases he : encode word with
  | nil =>
    rw [he] at start
    cases start
  | cons first run =>
    rw [he] at start inside h
    exact ⟨_, .keyword start (.of_cons (List.all_eq_true.1 inside) rfl) h next⟩

/-- A byte that is a token by itself is written as it is. -/
theorem Sign.encode_text_of_ofMark? : ∀ b : Byte, ∀ kind ∈ Kind.ofMark? b,
    encode (Sign.text ⟨kind, some b.toChar.toString⟩) = [b] :=
  Byte.forall_of_lt (by decide +kernel)

theorem Lexeme.exists_of_ascii {kind : Kind} {width : Nat} {bytes rest : List Byte}
    (ascii : ∀ b ∈ bytes, b < 0x80) (h : Lexeme kind (some (lossy bytes)) width bytes rest) :
    ∃ width, Lexeme kind (some (String.ofList (bytes.map Byte.toChar))) width
      (encode (String.ofList (bytes.map Byte.toChar))) rest := by
  rw [encode_ascii ascii, ← lossy_ascii ascii]
  exact ⟨width, h⟩

namespace Sign.IsCanonical

variable {s : Sign}

/-- A token that is no layout is read back when a space follows. -/
theorem exists_lexeme (h : s.IsCanonical) (hk : s.kind.isLayout = false) (rest : List Byte) :
    ∃ width, Lexeme s.kind s.value width (encode s.text) (Byte.space :: rest) := by
  cases h with
  | newline | comment _ => cases hk
  | functionReturn => exact @Keyword.exists_lexeme "ret" _ rfl rest
  | definitionEnd => exact @Keyword.exists_lexeme "end" _ rfl rest
  | definition => exact @Keyword.exists_lexeme "def" _ rfl rest
  | moduleDefinition => exact @Keyword.exists_lexeme "defmodule" _ rfl rest
  | atom start word =>
    obtain ⟨first, hf, rfl⟩ := SameClass.alphanumeric.exists_byte start
    obtain ⟨run, hr, rfl⟩ := SameClass.word.exists_bytes word
    have ascii : ∀ b ∈ Byte.colon :: first :: run, b < 0x80 :=
      List.forall_mem_cons.2
        ⟨by decide, SameClass.alphanumeric.lt_of_mem_cons SameClass.word hf hr⟩
    have lexeme := @Lexeme.atom first run (Byte.space :: rest) hf (.of_cons hr rfl)
      (by simp [Followers.spacing])
    exact lexeme.exists_of_ascii ascii
  | identifier start word free =>
    obtain ⟨first, hf, rfl⟩ := SameClass.letter.exists_byte start
    obtain ⟨run, hr, rfl⟩ := SameClass.word.exists_bytes word
    have ascii := SameClass.letter.lt_of_mem_cons SameClass.word hf hr
    rw [← List.map_cons, ← lossy_ascii ascii] at free
    have lexeme := @Lexeme.identifier first run (Byte.space :: rest) hf (.of_cons hr rfl) free
      (by simp [Byte.space, Byte.colon])
    exact lexeme.exists_of_ascii ascii
  | declaration start word free =>
    obtain ⟨first, hf, rfl⟩ := SameClass.letter.exists_byte start
    obtain ⟨run, hr, rfl⟩ := SameClass.word.exists_bytes word
    have ascii := SameClass.letter.lt_of_mem_cons SameClass.word hf hr
    rw [← List.map_cons, ← lossy_ascii ascii] at free ⊢
    have lexeme := @Lexeme.declaration first run (Byte.space :: rest) hf hr free
      (by simp [Followers.spacing])
    have code : encode (lossy (first :: run) ++ ":") = first :: run ++ [Byte.colon] := by
      rw [encode_append, lossy_ascii ascii, encode_ascii ascii]
      rfl
    exact ⟨_, code ▸ lexeme⟩
  | integer start inside =>
    obtain ⟨first, hf, rfl⟩ := SameClass.digit.exists_byte start
    obtain ⟨run, hr, rfl⟩ := SameClass.digit.exists_bytes inside
    have ascii := SameClass.digit.lt_of_mem_cons SameClass.digit hf hr
    have lexeme := @Lexeme.integer first run (Byte.space :: rest) hf (.of_cons hr rfl)
      (by simp [Byte.space, Byte.dot])
    exact lexeme.exists_of_ascii ascii
  | float start digits decimals =>
    obtain ⟨first, hf, rfl⟩ := SameClass.digit.exists_byte start
    obtain ⟨whole, hw, rfl⟩ := SameClass.digit.exists_bytes digits
    obtain ⟨fraction, hr, rfl⟩ := SameClass.digit.exists_bytes decimals
    have ascii : ∀ b ∈ first :: whole ++ Byte.dot :: fraction, b < 0x80 := by
      simp only [List.forall_mem_append, List.forall_mem_cons]
      exact ⟨⟨SameClass.digit.lt hf, SameClass.digit.lt_of_mem hw⟩, by decide,
        SameClass.digit.lt_of_mem hr⟩
    have lexeme := @Lexeme.float first whole fraction (Byte.space :: rest) hf hw (.of_cons hr rfl)
    have h := lexeme.exists_of_ascii ascii
    rw [List.map_append] at h
    exact h
  | @string text inside =>
    have closed : ∀ b ∈ encode text, b ≠ Byte.quote ∧ b ≠ Byte.newline := by
      intro b hb
      constructor
      · rintro rfl
        exact (inside _ (toChar_mem_of_mem_encode hb (by decide))).1 rfl
      · rintro rfl
        exact (inside _ (toChar_mem_of_mem_encode hb (by decide))).2 rfl
    have lexeme := @Lexeme.string (encode text) (Byte.space :: rest) Byte.quote closed (.inl rfl)
    have code : encode ("\"" ++ text ++ "\"") = Byte.quote :: encode text ++ [Byte.quote] := by
      rw [encode_append, encode_append]
      rfl
    rw [lossy_encode] at lexeme
    exact ⟨_, code ▸ lexeme⟩
  | arrow => exact ⟨2, @Lexeme.arrow 45 [62] _ (.of_cons (List.all_eq_true.1 rfl) rfl) rfl⟩
  | operator start inside other =>
    obtain ⟨first, hf, rfl⟩ := SameClass.operator.exists_byte start
    obtain ⟨run, hr, rfl⟩ := SameClass.operator.exists_bytes inside
    have all : ∀ b ∈ first :: run, b.isOperator := List.forall_mem_cons.2 ⟨hf, hr⟩
    have ascii := SameClass.operator.lt_of_mem all
    rw [← List.map_cons, ← lossy_ascii ascii] at other
    have lexeme := @Lexeme.operator first run (Byte.space :: rest) (.of_cons all rfl) other
    exact lexeme.exists_of_ascii ascii
  | @mark b kind is =>
    have ascii : ∀ c ∈ [b], c < 0x80 := by simpa using Byte.lt_of_ofMark? b (by simp [is])
    have value : lossy [b] = b.toChar.toString := lossy_ascii ascii
    rw [encode_text_of_ofMark? _ _ is]
    exact ⟨1, value ▸ .mark is⟩

/-- What the text of a token begins with. -/
theorem exists_head (h : s.IsCanonical) :
    ∃ b tail, encode s.text = b :: tail ∧ b.isBlank = false ∧
      (s.kind = .newline ↔ b = Byte.newline) := by
  cases hk : s.kind.isLayout with
  | false =>
    obtain ⟨width, lexeme⟩ := h.exists_lexeme hk []
    obtain ⟨b, tail, lead, he, hl⟩ := lexeme.exists_lead
    rw [he] at lexeme
    exact ⟨b, tail, he, Lead.isBlank_of_ofByte? hl, lexeme.kind_eq_newline_iff⟩
  | true =>
    cases h with
    | newline => exact ⟨Byte.newline, [], rfl, rfl, iff_of_true rfl rfl⟩
    | @comment line _ =>
      have code : encode (String.ofList ('#' :: line)) = Byte.hash :: encode (String.ofList line) :=
        encode_ofList_cons '#' line
      exact ⟨Byte.hash, _, code, rfl, iff_of_false nofun nofun⟩
    | mark is => rw [Kind.not_isLayout_of_ofMark? _ _ is] at hk; cases hk
    | _ => cases hk

end Sign.IsCanonical

theorem isBlank_of_mem_encode {gap : String} (h : ∀ c ∈ gap.toList, c = ' ' ∨ c = '\t') :
    ∀ b ∈ encode gap, b.isBlank := by
  intro b hb
  rw [Text.Utf8.encode_eq] at hb
  obtain ⟨c, hc, hm⟩ := List.mem_flatMap.1 hb
  rcases h c hc with rfl | rfl
  · rw [List.mem_singleton.1 hm]
    rfl
  · rw [List.mem_singleton.1 hm]
    rfl

/-- Any token is read back if what follows its gap stops it. -/
theorem Sign.IsCanonical.exists_lexeme_gap {s : Sign} {gap : String} {rest : List Byte}
    (h : s.IsCanonical) (apart : Apart s.kind gap)
    (newline : s.kind = .newline → ∀ b ∈ rest.head?, b.isLayout = false)
    (comment : s.kind = .comment → ∀ b ∈ rest.head?, b = Byte.newline) :
    ∃ width text blanks, encode (s.text ++ gap) = text ++ blanks ∧ (∀ b ∈ blanks, b.isBlank) ∧
      Lexeme s.kind s.value width text (blanks ++ rest) := by
  have blank := isBlank_of_mem_encode apart.blank
  rw [encode_append]
  cases hk : s.kind.isLayout with
  | false =>
    obtain ⟨cs, hcs⟩ := List.head?_eq_some_iff.1 (apart.space hk)
    have code : encode gap = Byte.space :: cs.flatMap String.utf8EncodeChar := by
      rw [Text.Utf8.encode_eq, hcs]
      rfl
    rw [code] at blank ⊢
    obtain ⟨width, lexeme⟩ := h.exists_lexeme hk (cs.flatMap String.utf8EncodeChar ++ rest)
    exact ⟨width, _, _, rfl, blank, lexeme⟩
  | true =>
    cases h with
    | newline =>
      -- the gap is layout as well, so the newline takes it along
      have layout : Longest Byte.isLayout (encode gap) rest :=
        ⟨fun b hb => Byte.isLayout_of_isBlank (blank b hb), newline rfl⟩
      exact ⟨0, Byte.newline :: encode gap, [], (List.append_nil _).symm, by simp, .newline layout⟩
    | @comment line inside =>
      obtain rfl := apart.comment rfl
      have code : encode (String.ofList ('#' :: line)) = Byte.hash :: encode (String.ofList line) :=
        encode_ofList_cons '#' line
      have line : Longest (· != Byte.newline) (encode (String.ofList line)) rest := by
        constructor
        · intro b hb
          simp only [bne_iff_ne]
          rintro rfl
          have hm := toChar_mem_of_mem_encode hb (by decide)
          rw [String.toList_ofList] at hm
          exact inside hm
        · intro b hb
          simp [comment rfl b hb]
      have lexeme := Lexeme.comment line
      rw [← code, lossy_encode] at lexeme
      exact ⟨_, _, [], rfl, by simp, lexeme⟩
    | mark is => rw [Kind.not_isLayout_of_ofMark? _ _ is] at hk; cases hk
    | _ => cases hk

/-- What follows a token in a text that writes it out lets it end where it should. -/
theorem stops_of_renders {s : Sign} {signs : List Sign} {text : String}
    (next : ∀ t ∈ signs.head?, s.MayPrecede t) (hc : Canonical signs) (hr : Renders signs text) :
    (s.kind = .newline → ∀ b ∈ (encode text).head?, b.isLayout = false) ∧
      (s.kind = .comment → ∀ b ∈ (encode text).head?, b = Byte.newline) := by
  cases hr with
  | nil => constructor <;> (intro _ b hb; cases hb)
  | @cons t signs gap text _ _ =>
    cases hc with
    | cons sign _ _ =>
      obtain ⟨b, tail, code, blank, newline⟩ := sign.exists_head
      obtain ⟨apart, follows⟩ := next t rfl
      rw [encode_append, encode_append, code]
      constructor
      · rintro hk c ⟨⟩
        have hb : b ≠ Byte.newline := mt newline.2 (apart hk)
        simp [Byte.isLayout, blank, hb]
      · rintro hk c ⟨⟩
        exact newline.1 (follows hk)

/-- Canonical tokens that are written out, however far apart, fall into these tokens again. -/
theorem exists_decomposed_of_renders {signs : List Sign} {text : String} (hc : Canonical signs)
    (hr : Renders signs text) (file : String) (before : List Byte) :
    ∃ tokens, Decomposed file before (encode text) tokens ∧ tokens.map Token.sign = signs := by
  induction hr generalizing before with
  | nil => exact ⟨[], .done (by simp [encode]), rfl⟩
  | @cons s signs gap text apart more ih =>
    cases hc with
    | cons sign next canonical =>
      obtain ⟨newline, comment⟩ := stops_of_renders next canonical more
      obtain ⟨width, lex, blanks, code, blank, lexeme⟩ :=
        sign.exists_lexeme_gap apart newline comment
      -- the blanks after the token become the gap before the next one
      obtain ⟨tokens, hd, ht⟩ := ih canonical (before ++ lex ++ blanks)
      have first : ∀ b ∈ ([] : List Byte), b.isBlank := by simp
      rw [← List.append_nil before] at hd
      have h := Decomposed.token first lexeme (hd.blank_append blank)
      refine ⟨Token.after file (before ++ []) s.kind s.value width :: tokens, ?_, ?_⟩
      · rw [encode_append, code, List.append_assoc]
        exact h
      · rw [List.map_cons, ht]
        rfl

namespace Lexer

def signsOf (file text : String) : Except Diagnostic (List Sign) :=
  (ofSource (Source.ofText text) file).tokens.map (·.map Token.sign)

/-- Exactly the canonical lists are read from some text, and these are read back from any text that
writes them out. -/
theorem canonical_iff_signsOf (file : String) (signs : List Sign) :
    (Canonical signs ↔ ∃ text, signsOf file text = .ok signs) ∧
      (Canonical signs → signsOf file (render signs) = .ok signs ∧
        ∀ text, Renders signs text → signsOf file text = .ok signs) := by
  have back : Canonical signs → ∀ text, Renders signs text → signsOf file text = .ok signs := by
    intro canonical text hr
    obtain ⟨tokens, hd, rfl⟩ := exists_decomposed_of_renders canonical hr file []
    have h : (ofSource (Source.ofText text) file).tokens = .ok tokens := tokensOf_of_decomposed hd
    simp [signsOf, h, Except.map]
  have written (canonical : Canonical signs) := back canonical _ (renders_render signs)
  refine ⟨⟨fun canonical => ⟨render signs, written canonical⟩, ?_⟩,
    fun canonical => ⟨written canonical, back canonical⟩⟩
  rintro ⟨text, h⟩
  cases ht : (ofSource (Source.ofText text) file).tokens with
  | error d => simp [signsOf, ht, Except.map] at h
  | ok tokens =>
    simp only [signsOf, ht, Except.map, Except.ok.injEq] at h
    subst h
    exact (decomposed_of_tokensOf ht).canonical

end Lexer

end DefLang
