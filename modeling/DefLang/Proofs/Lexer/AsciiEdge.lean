import DefLang.Proofs.Lexer.Canonical
import DefLang.Proofs.Lexer.EarliestFault

namespace DefLang

variable {kind : Kind} {value : Option String} {width : Nat} {b : Byte}
  {bytes taken text rest : List Byte}

theorem Byte.lt_of_isLayout : ∀ b : Byte, b.isLayout → b < 0x80 :=
  Byte.forall_of_lt (by decide +kernel)

theorem Lead.lt_of_ofByte? : ∀ b : Byte, (ofByte? b).isSome → b < 0x80 :=
  Byte.forall_of_lt (by decide +kernel)

def EndsInAscii (bytes : List Byte) : Prop := ∀ last ∈ bytes.getLast?, last < 0x80

namespace EndsInAscii

theorem of_forall (h : ∀ b ∈ bytes, b < 0x80) : EndsInAscii bytes :=
  fun last mem => h last (List.mem_of_getLast? mem)

theorem append (h : EndsInAscii text) (some : text ≠ []) (before : List Byte) :
    EndsInAscii (before ++ text) := by
  have last : (before ++ text).getLast? = text.getLast? := by
    rw [List.getLast?_append, List.getLast?_eq_some_getLast some]
    rfl
  rwa [EndsInAscii, last]

end EndsInAscii

theorem Refusal.ascii (h : Refusal taken rest) : ∀ b ∈ taken, b < 0x80 := by
  cases h with
  | start _ _ => simp
  | atomStart _ => exact List.forall_mem_singleton.2 (by decide)
  | atomEnd start name _ =>
    have word := SameClass.alphanumeric.lt_of_mem_cons SameClass.word start name.inside
    exact List.forall_mem_cons.2 ⟨by decide, word⟩
  | keyword start word _ _ => exact SameClass.letter.lt_of_mem_cons SameClass.word start word.inside
  | declaration start word _ _ =>
    have name := SameClass.letter.lt_of_mem_cons SameClass.word start word
    exact List.forall_mem_append.2 ⟨name, List.forall_mem_singleton.2 (by decide)⟩

/-- Only comments and strings hold bytes outside ASCII, and they are closed by a newline or a quote
unless the input ends. -/
theorem Lexeme.endsInAscii (h : Lexeme kind value width text (b :: rest)) (hb : b ≠ Byte.newline) :
    EndsInAscii text := by
  cases h with
  | newline layout =>
    refine .of_forall (List.forall_mem_cons.2 ⟨by decide, fun b mem => ?_⟩)
    exact Byte.lt_of_isLayout b (layout.inside b mem)
  | comment line => exact absurd (line.stops b rfl) (by simpa using hb)
  | atom start name _ =>
    have word := SameClass.alphanumeric.lt_of_mem_cons SameClass.word start name.inside
    exact .of_forall (List.forall_mem_cons.2 ⟨by decide, word⟩)
  | keyword start word _ _ | identifier start word _ _ =>
    exact .of_forall (SameClass.letter.lt_of_mem_cons SameClass.word start word.inside)
  | declaration start word _ _ =>
    exact .append (.of_forall (List.forall_mem_singleton.2 (by decide))) (by simp) _
  | integer start digits _ =>
    exact .of_forall (SameClass.digit.lt_of_mem_cons SameClass.digit start digits.inside)
  | float start digits decimals =>
    refine .append (.of_forall ?_) (by simp) _
    exact List.forall_mem_cons.2 ⟨by decide, SameClass.digit.lt_of_mem decimals.inside⟩
  | string inside closes =>
    refine .append (.of_forall (List.forall_mem_singleton.2 ?_)) (by simp) _
    rcases closes with rfl | rfl <;> decide
  | arrow operators _ | operator operators _ =>
    exact .of_forall (SameClass.operator.lt_of_mem operators.inside)
  | @mark b _ _ is =>
    exact .of_forall (List.forall_mem_singleton.2 (Byte.lt_of_ofMark? b (by simp [is])))

/-- A byte that blocks a source comes after one of ASCII, or first. -/
theorem Blocked.endsInAscii {consumed : List Byte} (h : Blocked consumed rest) (more : rest ≠ []) :
    EndsInAscii consumed := by
  induction h with
  | here blank refusal =>
    refine .of_forall (List.forall_mem_append.2 ⟨fun b mem => ?_, refusal.ascii⟩)
    exact Byte.lt_of_isLayout b (Byte.isLayout_of_isBlank (blank b mem))
  | @later gap text between _ _ _ _ blank lexeme blocked ih =>
    by_cases last : between = []
    · subst last
      obtain ⟨b, bytes, rfl, lead, -⟩ := blocked.start_of_nil
      have hb : b ≠ Byte.newline := by
        rintro rfl
        cases lead
      rw [List.append_nil]
      exact (Lexeme.endsInAscii lexeme hb).append lexeme.text_ne_nil gap
    · exact (ih more).append last _

end DefLang
