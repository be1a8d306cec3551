import DefLang.Proofs.Text.Ascii

namespace DefLang

def isWordChar (c : Char) : Bool := c.isAlphanum || c == '_'

def isOperatorChar (c : Char) : Bool := "+-*/%&><\\|~!=".toList.contains c

/-- A class of characters, all of them ASCII, that is this class of bytes. -/
structure SameClass (p : Char → Bool) (q : Byte → Bool) : Prop where
  agree : ∀ b : Byte, p b.toChar = q b
  ascii : ∀ c : Char, p c → c.toNat < 128

namespace SameClass

variable {p : Char → Bool} {q : Byte → Bool}

theorem lt (h : SameClass p q) {b : Byte} (hb : q b) : b < 0x80 := by
  have hc : p b.toChar := by rwa [h.agree]
  exact UInt8.lt_iff_toNat_lt.2 (h.ascii _ hc)

theorem toChar (h : SameClass p q) {b : Byte} (hb : q b) : p b.toChar := by
  rwa [h.agree]

theorem exists_byte (h : SameClass p q) {c : Char} (hc : p c) : ∃ b, q b ∧ c = b.toChar := by
  have hn : (UInt8.ofNat c.toNat).toNat = c.toNat := by
    rw [UInt8.toNat_ofNat']
    have := h.ascii c hc
    omega
  have he : c = Byte.toChar (UInt8.ofNat c.toNat) := by
    rw [← Char.ofNat_toNat (Byte.toChar _), Text.Utf8.toNat_toChar, hn, Char.ofNat_toNat]
  refine ⟨UInt8.ofNat c.toNat, ?_, he⟩
  rwa [← h.agree, ← he]

variable {bytes : List Byte}

theorem lt_of_mem (h : SameClass p q) (hq : ∀ b ∈ bytes, q b) : ∀ b ∈ bytes, b < 0x80 :=
  fun b hb => h.lt (hq b hb)

theorem lt_of_mem_cons {p' : Char → Bool} {q' : Byte → Bool} (h : SameClass p q)
    (h' : SameClass p' q') {first : Byte} (start : q first) (inside : ∀ b ∈ bytes, q' b) :
    ∀ b ∈ first :: bytes, b < 0x80 :=
  List.forall_mem_cons.2 ⟨h.lt start, h'.lt_of_mem inside⟩

theorem map_toChar (h : SameClass p q) (hq : ∀ b ∈ bytes, q b) :
    ∀ c ∈ bytes.map Byte.toChar, p c := by
  intro c hc
  obtain ⟨b, hb, rfl⟩ := List.mem_map.1 hc
  exact h.toChar (hq b hb)

theorem exists_bytes (h : SameClass p q) {cs : List Char} (hcs : ∀ c ∈ cs, p c) :
    ∃ bytes : List Byte, (∀ b ∈ bytes, q b) ∧ cs = bytes.map Byte.toChar := by
  induction cs with
  | nil => exact ⟨[], by simp, rfl⟩
  | cons c cs ih =>
    obtain ⟨b, hb, rfl⟩ := h.exists_byte (hcs c List.mem_cons_self)
    obtain ⟨bytes, hbytes, rfl⟩ := ih fun d hd => hcs d (List.mem_cons_of_mem _ hd)
    exact ⟨b :: bytes, List.forall_mem_cons.2 ⟨hb, hbytes⟩, rfl⟩

theorem ascii_of_isAlphanum {c : Char} (h : c.isAlphanum) : c.toNat < 128 := by
  rcases Bool.or_eq_true_iff.1 h with h | h
  · rcases Bool.or_eq_true_iff.1 h with h | h
    · have upper : c.val ≤ 'Z'.val := (of_decide_eq_true h).2
      exact Nat.lt_of_le_of_lt (UInt32.le_iff_toNat_le.1 upper) (by decide)
    · have lower : c.val ≤ 'z'.val := of_decide_eq_true (Bool.and_eq_true_iff.1 h).2
      exact Nat.lt_of_le_of_lt (UInt32.le_iff_toNat_le.1 lower) (by decide)
  · exact Nat.lt_of_le_of_lt (Char.isDigit_iff_toNat.1 h).2 (by decide)

theorem alphanumeric : SameClass Char.isAlphanum Byte.isAlphanumeric :=
  ⟨Byte.forall_of_lt (by decide +kernel), fun _ => ascii_of_isAlphanum⟩

theorem letter : SameClass Char.isAlpha Byte.isLetter := by
  refine ⟨Byte.forall_of_lt (by decide +kernel), ?_⟩
  intro c hc
  exact ascii_of_isAlphanum (by simp [Char.isAlphanum, hc])

theorem digit : SameClass Char.isDigit Byte.isDigit := by
  refine ⟨Byte.forall_of_lt (by decide +kernel), ?_⟩
  intro c hc
  exact ascii_of_isAlphanum (by simp [Char.isAlphanum, hc])

theorem word : SameClass isWordChar Byte.isWord := by
  refine ⟨Byte.forall_of_lt (by decide +kernel), ?_⟩
  intro c hc
  rcases Bool.or_eq_true_iff.1 hc with hc | hc
  · exact ascii_of_isAlphanum hc
  · rw [eq_of_beq hc]
    decide

theorem operator : SameClass isOperatorChar Byte.isOperator := by
  refine ⟨Byte.forall_of_lt (by decide +kernel), ?_⟩
  intro c hc
  have all : "+-*/%&><\\|~!=".toList.all (·.toNat < 128) := by decide
  exact of_decide_eq_true (List.all_eq_true.1 all c (List.contains_iff_mem.1 hc))

end SameClass

end DefLang
