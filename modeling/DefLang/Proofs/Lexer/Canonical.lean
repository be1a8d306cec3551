import DefLang.Proofs.Lexer.Exactness
import DefLang.Proofs.Text.CharClass

namespace DefLang

open Text.Utf8 (lossy lossy_ascii lossy_cons_ascii mem_of_toChar_mem_lossy)

structure Sign where
  kind : Kind
  value : Option String
deriving DecidableEq, Repr

def Token.sign (t : Token) : Sign := ⟨t.kind, t.value⟩

namespace Sign

inductive IsCanonical : Sign → Prop
  | newline : IsCanonical ⟨.newline, none⟩
  | functionReturn : IsCanonical ⟨.functionReturn, none⟩
  | definitionEnd : IsCanonical ⟨.definitionEnd, none⟩
  | definition : IsCanonical ⟨.definition, none⟩
  | moduleDefinition : IsCanonical ⟨.definition, some "module"⟩
  | comment {line : List Char} (inside : '\n' ∉ line) :
      IsCanonical ⟨.comment, some (String.ofList ('#' :: line))⟩
  | atom {first : Char} {name : List Char} (start : first.isAlphanum)
      (word : ∀ c ∈ name, isWordChar c) :
      IsCanonical ⟨.atom, some (String.ofList (':' :: first :: name))⟩
  | identifier {first : Char} {name : List Char} (start : first.isAlpha)
      (word : ∀ c ∈ name, isWordChar c)
      (free : Keyword.ofWord? (String.ofList (first :: name)) = none) :
      IsCanonical ⟨.identifier, some (String.ofList (first :: name))⟩
  | declaration {first : Char} {name : List Char} (start : first.isAlpha)
      (word : ∀ c ∈ name, isWordChar c)
      (free : Keyword.ofWord? (String.ofList (first :: name)) = none) :
      IsCanonical ⟨.declaration, some (String.ofList (first :: name) ++ ":")⟩
  | integer {first : Char} {digits : List Char} (start : first.isDigit)
      (inside : ∀ c ∈ digits, c.isDigit) :
      IsCanonical ⟨.integer, some (String.ofList (first :: digits))⟩
  | float {first : Char} {whole fraction : List Char} (start : first.isDigit)
      (digits : ∀ c ∈ whole, c.isDigit) (decimals : ∀ c ∈ fraction, c.isDigit) :
      IsCanonical ⟨.float, some (String.ofList (first :: whole ++ '.' :: fraction))⟩
  | string {text : String} (inside : ∀ c ∈ text.toList, c ≠ '"' ∧ c ≠ '\n') :
      IsCanonical ⟨.string, some text⟩
  | arrow : IsCanonical ⟨.arrow, some "->"⟩
  | operator {first : Char} {run : List Char} (start : isOperatorChar first)
      (inside : ∀ c ∈ run, isOperatorChar c) (other : String.ofList (first :: run) ≠ "->") :
      IsCanonical ⟨.operator, some (String.ofList (first :: run))⟩
  | mark {b : Byte} {kind : Kind} (is : Kind.ofMark? b = some kind) :
      IsCanonical ⟨kind, some b.toChar.toString⟩

/-- Newlines merge, and only a newline ends a comment. -/
def MayPrecede (s t : Sign) : Prop :=
  (s.kind = .newline → t.kind ≠ .newline) ∧ (s.kind = .comment → t.kind = .newline)

end Sign

/-- The lists of kinds and values that some text is read as. -/
inductive Canonical : List Sign → Prop
  | nil : Canonical []
  | cons {s : Sign} {signs : List Sign} (sign : s.IsCanonical)
      (next : ∀ t ∈ signs.head?, s.MayPrecede t) (more : Canonical signs) : Canonical (s :: signs)

theorem Kind.not_isLayout_of_ofMark? : ∀ b : Byte, ∀ kind ∈ ofMark? b, kind.isLayout = false :=
  Byte.forall_of_lt (by decide +kernel)

theorem Byte.lt_of_ofMark? : ∀ b : Byte, (Kind.ofMark? b).isSome → b < 0x80 :=
  Byte.forall_of_lt (by decide +kernel)

theorem Keyword.isCanonical {word : String} {k : Keyword} (h : ofWord? word = some k) :
    Sign.IsCanonical ⟨k.kind, k.value⟩ ∧ k.kind.isLayout = false := by
  have hm := mem_of_ofWord? h
  simp only [reserved, List.mem_cons, Prod.mk.injEq, List.not_mem_nil, or_false] at hm
  rcases hm with ⟨-, rfl⟩ | ⟨-, rfl⟩ | ⟨-, rfl⟩ | ⟨-, rfl⟩
  · exact ⟨.definition, rfl⟩
  · exact ⟨.functionReturn, rfl⟩
  · exact ⟨.definitionEnd, rfl⟩
  · exact ⟨.moduleDefinition, rfl⟩

/-- The content of a string is read without the characters that would have ended it. -/
theorem not_mem_lossy_of_inside {body : List Byte}
    (h : ∀ b ∈ body, b ≠ Byte.quote ∧ b ≠ Byte.newline) :
    ∀ c ∈ (lossy body).toList, c ≠ '"' ∧ c ≠ '\n' := by
  intro c hc
  constructor
  · rintro rfl
    exact (h Byte.quote (mem_of_toChar_mem_lossy hc (by decide) (by decide))).1 rfl
  · rintro rfl
    exact (h Byte.newline (mem_of_toChar_mem_lossy hc (by decide) (by decide))).2 rfl

namespace Lexeme

variable {kind : Kind} {value : Option String} {width : Nat} {text rest : List Byte}

/-- Layout stops where it has to, and nothing else is layout. -/
theorem layout_stops (h : Lexeme kind value width text rest) :
    (kind = .newline → ∀ b ∈ rest.head?, b.isLayout = false) ∧
      (kind = .comment → ∀ b ∈ rest.head?, b = Byte.newline) := by
  have other {k : Kind} (hk : k.isLayout = false) : k ≠ .newline ∧ k ≠ .comment := by
    constructor <;> (rintro rfl; cases hk)
  cases h with
  | newline layout => exact ⟨fun _ => layout.stops, nofun⟩
  | comment line =>
    refine ⟨nofun, ?_⟩
    intro _ b hb
    simpa using line.stops b hb
  | keyword _ _ reserved _ =>
    have hk := other (Keyword.isCanonical reserved).2
    exact ⟨fun h => absurd h hk.1, fun h => absurd h hk.2⟩
  | mark is =>
    have hk := other (Kind.not_isLayout_of_ofMark? _ _ is)
    exact ⟨fun h => absurd h hk.1, fun h => absurd h hk.2⟩
  | _ => exact ⟨nofun, nofun⟩

/-- A lexeme is a newline exactly if it begins with one. -/
theorem kind_eq_newline_iff {b : Byte} (h : Lexeme kind value width (b :: text) rest) :
    kind = .newline ↔ b = Byte.newline := by
  cases h with
  | newline _ => exact ⟨fun _ => rfl, fun _ => rfl⟩
  | comment _ | atom _ _ _ | string _ _ | openString _ => exact iff_of_false (by simp) (by decide)
  | keyword start _ reserved _ =>
    have hk := (Keyword.isCanonical reserved).2
    exact iff_of_false (fun h => by simp [h, Kind.isLayout] at hk) (by rintro rfl; cases start)
  | declaration start _ _ _ | identifier start _ _ _ | integer start _ _ | float start _ _ =>
    exact iff_of_false (by simp) (by rintro rfl; cases start)
  | arrow operators _ | operator operators _ =>
    have start := operators.inside _ List.mem_cons_self
    exact iff_of_false (by simp) (by rintro rfl; cases start)
  | mark is =>
    refine iff_of_false ?_ ?_
    · rintro rfl
      cases Kind.not_isLayout_of_ofMark? _ _ is
    · rintro rfl
      cases is

/-- Whatever its bytes, a lexeme has one of the values of its kind. -/
theorem isCanonical (h : Lexeme kind value width text rest) : Sign.IsCanonical ⟨kind, value⟩ := by
  cases h with
  | newline _ => exact .newline
  | comment line =>
    rw [lossy_cons_ascii (by decide)]
    refine .comment ?_
    intro hm
    exact line.newline_not_mem rfl (mem_of_toChar_mem_lossy hm (by decide) (by decide))
  | @atom first run _ start name _ =>
    have ascii := SameClass.alphanumeric.lt_of_mem_cons SameClass.word start name.inside
    rw [lossy_cons_ascii (by decide), lossy_ascii ascii, String.toList_ofList]
    exact .atom (SameClass.alphanumeric.toChar start) (SameClass.word.map_toChar name.inside)
  | keyword _ _ reserved _ => exact (Keyword.isCanonical reserved).1
  | declaration start word free _ =>
    have ascii := SameClass.letter.lt_of_mem_cons SameClass.word start word
    rw [lossy_ascii ascii] at free ⊢
    exact .declaration (SameClass.letter.toChar start) (SameClass.word.map_toChar word) free
  | identifier start word free _ =>
    have ascii := SameClass.letter.lt_of_mem_cons SameClass.word start word.inside
    rw [lossy_ascii ascii] at free ⊢
    exact .identifier (SameClass.letter.toChar start) (SameClass.word.map_toChar word.inside) free
  | integer start digits _ =>
    rw [lossy_ascii (SameClass.digit.lt_of_mem_cons SameClass.digit start digits.inside)]
    exact .integer (SameClass.digit.toChar start) (SameClass.digit.map_toChar digits.inside)
  | @float first whole fraction _ start digits decimals =>
    have ascii : ∀ b ∈ first :: whole ++ Byte.dot :: fraction, b < 0x80 := by
      simp only [List.cons_append, List.forall_mem_cons, List.forall_mem_append]
      exact ⟨SameClass.digit.lt start, SameClass.digit.lt_of_mem digits, by decide,
        SameClass.digit.lt_of_mem decimals.inside⟩
    rw [lossy_ascii ascii, List.map_append]
    exact .float (SameClass.digit.toChar start) (SameClass.digit.map_toChar digits)
      (SameClass.digit.map_toChar decimals.inside)
  | string inside _ => exact .string (not_mem_lossy_of_inside inside)
  | openString inside => exact .string (not_mem_lossy_of_inside inside)
  | arrow _ _ => exact .arrow
  | operator operators reads =>
    rw [lossy_ascii (SameClass.operator.lt_of_mem operators.inside)] at reads ⊢
    have all := SameClass.operator.map_toChar operators.inside
    obtain ⟨start, inside⟩ := List.forall_mem_cons.1 all
    exact .operator start inside reads
  | @mark b _ _ is =>
    have ascii : ∀ c ∈ [b], c < 0x80 := by simpa using Byte.lt_of_ofMark? b (by simp [is])
    rw [lossy_ascii ascii]
    exact .mark is

/-- What stands first after another lexeme: a blank, or the first byte of this one. -/
theorem exists_head {gap : List Byte} (blank : ∀ b ∈ gap, b.isBlank)
    (h : Lexeme kind value width text rest) :
    ∃ b tail, gap ++ text ++ rest = b :: tail ∧
      (b.isBlank ∨ (kind = .newline ↔ b = Byte.newline)) := by
  cases gap with
  | nil =>
    obtain ⟨b, tail, lead, rfl, _⟩ := h.exists_lead
    exact ⟨b, tail ++ rest, rfl, .inr h.kind_eq_newline_iff⟩
  | cons b gap => exact ⟨b, gap ++ text ++ rest, rfl, .inl (blank b List.mem_cons_self)⟩

theorem mayPrecede {gap text' rest' : List Byte} {kind' : Kind} {value' : Option String}
    {width' : Nat} (h : Lexeme kind value width text (gap ++ text' ++ rest'))
    (blank : ∀ b ∈ gap, b.isBlank) (h' : Lexeme kind' value' width' text' rest') :
    Sign.MayPrecede ⟨kind, value⟩ ⟨kind', value'⟩ := by
  obtain ⟨b, tail, he, hb⟩ := exists_head blank h'
  rw [he] at h
  constructor
  · -- a newline takes all layout, so no blank and no newline is left to come first
    intro hk hk'
    have stop : b.isLayout = false := h.layout_stops.1 hk b rfl
    rcases hb with hb | hb
    · rw [Byte.isLayout_of_isBlank hb] at stop
      cases stop
    · rw [hb.1 hk'] at stop
      cases stop
  · -- a comment ends at a newline only, and that is no blank
    intro hk
    have newline : b = Byte.newline := h.layout_stops.2 hk b rfl
    rcases hb with hb | hb
    · rw [newline] at hb
      cases hb
    · exact hb.2 newline

end Lexeme

/-- Tokens of any source are canonical, one that is no text included. -/
theorem Decomposed.canonical {file : String} {before bytes : List Byte} {tokens : List Token}
    (h : Decomposed file before bytes tokens) : Canonical (tokens.map Token.sign) := by
  induction h with
  | done _ => exact .nil
  | token _ lexeme more ih =>
    refine .cons lexeme.isCanonical ?_ ih
    intro t ht
    cases more with
    | done _ => cases ht
    | token blank lexeme' _ =>
      cases ht
      exact lexeme.mayPrecede blank lexeme'

end DefLang
