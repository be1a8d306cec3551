import DefLang.Lexer.Lexeme

namespace DefLang

/-- There are few enough bytes to look at each. -/
theorem Byte.forall_of_lt {p : Byte → Prop} (h : ∀ n < 256, p (UInt8.ofNat n)) (b : Byte) :
    p b := by
  have hb := h b.toNat b.toNat_lt
  rwa [UInt8.ofNat_toNat] at hb

theorem Byte.isWord_of_isLetter {b : Byte} (h : b.isLetter) : b.isWord := by
  simp [isWord, isAlphanumeric, h]

namespace Lead

theorem ofByte?_of_isLetter : ∀ b : Byte, b.isLetter → ofByte? b = some .word :=
  Byte.forall_of_lt (by decide +kernel)

theorem ofByte?_of_isDigit : ∀ b : Byte, b.isDigit → ofByte? b = some .number :=
  Byte.forall_of_lt (by decide +kernel)

theorem ofByte?_of_isOperator : ∀ b : Byte, b.isOperator → ofByte? b = some .operator :=
  Byte.forall_of_lt (by decide +kernel)

theorem ofByte?_of_ofMark? : ∀ b : Byte, ∀ k ∈ Kind.ofMark? b, ofByte? b = some (.mark k) :=
  Byte.forall_of_lt (by decide +kernel)

def Begins : Lead → Byte → Prop
  | newline, b => b = Byte.newline
  | comment, b => b = Byte.hash
  | atom, b => b = Byte.colon
  | string, b => b = Byte.quote
  | word, b => b.isLetter
  | number, b => b.isDigit
  | operator, b => b.isOperator
  | mark kind, b => Kind.ofMark? b = some kind

theorem begins_of_ofByte? {b : Byte} {lead : Lead} (h : ofByte? b = some lead) :
    lead.Begins b := by
  unfold ofByte? at h
  split at h
  · next hb => cases h; exact eq_of_beq hb
  · split at h
    · next hb => cases h; exact eq_of_beq hb
    · split at h
      · next hb => cases h; exact eq_of_beq hb
      · split at h
        · next hb => cases h; exact eq_of_beq hb
        · split at h
          · next hb => cases h; exact hb
          · split at h
            · next hb => cases h; exact hb
            · split at h
              · next hb => cases h; exact hb
              · obtain ⟨kind, hk, rfl⟩ := Option.map_eq_some_iff.1 h
                exact hk

theorem isBlank_of_ofByte? {b : Byte} {lead : Lead} (h : ofByte? b = some lead) :
    b.isBlank = false := by
  cases hb : b.isBlank with
  | false => rfl
  | true =>
    simp only [Byte.isBlank, Bool.or_eq_true, beq_iff_eq] at hb
    rcases hb with rfl | rfl
    · cases h
    · cases h

end Lead

end DefLang
