import DefLang.Proofs.Lexer.ByteClass
import DefLang.Text.RoundTrip

namespace DefLang.Text.Utf8

variable {b : Byte} {bytes : List Byte}

theorem encode_append (text more : String) :
    encode (text ++ more) = encode text ++ encode more := by
  simp only [encode_eq, String.toList_append, List.flatMap_append]

theorem encode_ofList_cons (c : Char) (cs : List Char) :
    encode (String.ofList (c :: cs)) = String.utf8EncodeChar c ++ encode (String.ofList cs) := by
  simp only [encode_eq, String.toList_ofList, List.flatMap_cons]

theorem utf8EncodeChar_toChar : ∀ b : Byte, b < 0x80 → String.utf8EncodeChar b.toChar = [b] :=
  Byte.forall_of_lt (by decide +kernel)

theorem toNat_toChar (b : Byte) : b.toChar.toNat = b.toNat := rfl

theorem encode_ascii (h : ∀ b ∈ bytes, b < 0x80) :
    encode (String.ofList (bytes.map Byte.toChar)) = bytes := by
  induction bytes with
  | nil => rfl
  | cons b bytes ih =>
    rw [List.map_cons, encode_ofList_cons, utf8EncodeChar_toChar b (h b List.mem_cons_self),
      ih fun c hc => h c (List.mem_cons_of_mem b hc)]
    rfl

theorem lossy_cons_ascii (hb : b < 0x80) (bytes : List Byte) :
    lossy (b :: bytes) = String.ofList (b.toChar :: (lossy bytes).toList) := by
  simp [lossy, decode_cons_ascii hb]

/-- A byte of ASCII in the code of a character is all of it. -/
theorem eq_toChar_of_mem_utf8EncodeChar {c : Char} (h : b ∈ String.utf8EncodeChar c)
    (hb : b < 0x80) : c = b.toChar := by
  have hb : b.toNat < 128 := UInt8.lt_iff_toNat_lt.1 hb
  have hc : Char.ofNat c.val.toNat = c := Char.ofNat_toNat c
  have small (k : Nat) (hk : b = UInt8.ofNat k) : b.toNat = k % 256 := hk ▸ UInt8.toNat_ofNat'
  unfold String.utf8EncodeChar at h
  generalize c.val.toNat = v at h hc
  dsimp only at h
  split at h
  · next hv =>
    have := small v (List.mem_singleton.1 h)
    rw [← hc, ← Char.ofNat_toNat b.toChar, toNat_toChar]
    congr 1
    omega
  · -- any other code starts with 192 or more and goes on with 128 or more
    have high : 128 ≤ b.toNat := by
      split at h
      · simp only [List.mem_cons, List.not_mem_nil, or_false] at h
        rcases h with h | h <;> rw [small _ h] <;> omega
      · split at h
        · simp only [List.mem_cons, List.not_mem_nil, or_false] at h
          rcases h with h | h | h <;> rw [small _ h] <;> omega
        · simp only [List.mem_cons, List.not_mem_nil, or_false] at h
          rcases h with h | h | h | h <;> rw [small _ h] <;> omega
    omega

theorem toChar_mem_of_mem_encode {text : String} (h : b ∈ encode text) (hb : b < 0x80) :
    b.toChar ∈ text.toList := by
  rw [encode_eq] at h
  obtain ⟨c, hc, hm⟩ := List.mem_flatMap.1 h
  rwa [← eq_toChar_of_mem_utf8EncodeChar hm hb]

def Pending.IsWide (p : Pending) : Prop :=
  0x80 ≤ p.low ∧ p.high ≤ 0xBF ∧
    (2 ≤ p.bits ∨ 2 ≤ p.missing ∧ 2 ≤ p.bits * 64 + (p.low.toNat - 128))

instance (p : Pending) : Decidable p.IsWide := by
  unfold Pending.IsWide
  infer_instance

theorem isWide_of_opening? : ∀ b : Byte, ∀ p ∈ opening? b, p.IsWide :=
  Byte.forall_of_lt (by decide +kernel)

/-- Where an ASCII character of the decoded text can come from: a byte of its own, or a malformed
code point that is read as the null character. -/
def ReadFrom (bytes : List Byte) (c : Char) : Prop :=
  (∃ b ∈ bytes, c = b.toChar) ∨ c = Char.ofNat 0 ∨ 128 ≤ c.toNat

theorem readFrom_first (b : Byte) :
    (∀ c, some c ∈ (first b).1 → ReadFrom [b] c) ∧ ∀ p ∈ (first b).2, p.IsWide := by
  unfold first
  split
  · refine ⟨?_, by simp⟩
    intro c hc
    simp only [List.mem_singleton, Option.some.injEq] at hc
    exact .inl ⟨b, List.mem_singleton_self b, hc⟩
  · split
    · next p hp =>
      refine ⟨by simp, ?_⟩
      rintro q ⟨⟩
      exact isWide_of_opening? b p hp
    · exact ⟨by simp, by simp⟩

theorem readFrom_ofNat {n : Nat} (h : 128 ≤ n) (bytes : List Byte) :
    ReadFrom bytes (Char.ofNat n) := by
  right
  rw [Char.ofNat]
  by_cases hv : n.isValidChar
  · right
    rw [dif_pos hv]
    exact h
  · left
    rw [dif_neg hv]
    rfl

theorem readFrom_next {p : Option Pending} (h : ∀ q ∈ p, q.IsWide) (b : Byte) :
    (∀ c, some c ∈ (next p b).1 → ReadFrom [b] c) ∧ ∀ q ∈ (next p b).2, q.IsWide := by
  cases p with
  | none => exact readFrom_first b
  | some p =>
    obtain ⟨hlow, hhigh, hbits⟩ := h p rfl
    have hlow : 128 ≤ p.low.toNat := UInt8.le_iff_toNat_le.1 hlow
    have hhigh : p.high.toNat ≤ 191 := UInt8.le_iff_toNat_le.1 hhigh
    rw [next]
    split
    · next hb =>
      simp only [Bool.and_eq_true, decide_eq_true_eq, UInt8.le_iff_toNat_le] at hb
      dsimp only
      split
      · -- the last byte: two bits or more were there before its six
        have := @readFrom_ofNat (p.bits * 64 + b.toNat % 64) (by omega) [b]
        exact ⟨by simpa using this, by simp⟩
      · refine ⟨by simp, ?_⟩
        rintro q ⟨⟩
        exact ⟨UInt8.le_refl 0x80, UInt8.le_refl 0xBF, .inl (by dsimp only; omega)⟩
    · obtain ⟨hc, hp⟩ := readFrom_first b
      exact ⟨by simpa using hc, hp⟩

theorem readFrom_decodeOnto {p : Option Pending} (h : ∀ q ∈ p, q.IsWide) {c : Char}
    (hc : some c ∈ decodeOnto [] p bytes) : ReadFrom bytes c := by
  induction bytes generalizing p with
  | nil => cases p <;> simp [decodeOnto] at hc
  | cons b bytes ih =>
    obtain ⟨hn, hp⟩ := readFrom_next h b
    rw [decodeOnto, decodeOnto_eq] at hc
    rcases List.mem_append.1 hc with hc | hc
    · obtain ⟨d, hd, rfl⟩ | hc := ih hp hc
      · exact .inl ⟨d, List.mem_cons_of_mem b hd, rfl⟩
      · exact .inr hc
    · simp only [List.append_nil, List.mem_reverse] at hc
      obtain ⟨d, hd, rfl⟩ | hc := hn c hc
      · exact .inl ⟨d, by simp [List.mem_singleton.1 hd], rfl⟩
      · exact .inr hc

/-- No ASCII character but the null character is made of other bytes than its own. -/
theorem mem_of_toChar_mem_lossy (h : b.toChar ∈ (lossy bytes).toList) (hb : b < 0x80)
    (hz : b ≠ 0) : b ∈ bytes := by
  have hb : b.toNat < 128 := UInt8.lt_iff_toNat_lt.1 hb
  simp only [lossy, String.toList_ofList, List.mem_map] at h
  obtain ⟨o, ho, he⟩ := h
  cases o with
  | none =>
    have : replacement.toNat = b.toNat := congrArg Char.toNat he
    have : replacement.toNat = 65533 := rfl
    omega
  | some c =>
    have he : c = b.toChar := he
    rw [decode, List.mem_reverse] at ho
    obtain ⟨d, hd, hc⟩ | hc | hc := readFrom_decodeOnto (by simp) ho
    · have : d.toNat = b.toNat := congrArg Char.toNat (hc.symm.trans he)
      rwa [← UInt8.toNat_inj.1 this]
    · have : b.toNat = 0 := congrArg Char.toNat (he.symm.trans hc)
      exact absurd (UInt8.toNat_inj.1 this) hz
    · rw [he, toNat_toChar] at hc
      omega

end DefLang.Text.Utf8
