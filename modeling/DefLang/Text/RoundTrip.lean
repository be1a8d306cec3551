import DefLang.Text.Utf8

namespace DefLang.Text.Utf8

theorem encode_eq (text : String) :
    encode text = text.toList.flatMap String.utf8EncodeChar := by
  have h : text.toByteArray = text.toList.utf8Encode := by
    rw [← String.toByteArray_ofList, String.ofList_toList]
  simp [encode, String.toUTF8, h, List.utf8Encode]

theorem first_two : ∀ n < 32, 2 ≤ n →
    next none (UInt8.ofNat (n + 192)) = ([], some ⟨1, 0x80, 0xBF, n⟩) := by
  decide

theorem first_three : ∀ n < 16,
    next none (UInt8.ofNat (n + 224)) =
      ([], some ⟨2, if n = 0 then 0xA0 else 0x80, if n = 13 then 0x9F else 0xBF, n⟩) := by
  decide

theorem first_four : ∀ n < 5,
    next none (UInt8.ofNat (n + 240)) =
      ([], some ⟨3, if n = 0 then 0x90 else 0x80, if n = 4 then 0x8F else 0xBF, n⟩) := by
  decide

/-- A byte within the bounds adds its six bits. -/
theorem next_some {missing bits m : Nat} {low high : Byte} (hm : m < 64)
    (hl : low.toNat ≤ m + 128) (hh : m + 128 ≤ high.toNat) :
    next (some ⟨missing, low, high, bits⟩) (UInt8.ofNat (m + 128)) =
      if missing ≤ 1 then ([some (Char.ofNat (bits * 64 + m))], none)
      else ([], some ⟨missing - 1, 0x80, 0xBF, bits * 64 + m⟩) := by
  have hb : (UInt8.ofNat (m + 128)).toNat = m + 128 := by
    simp only [UInt8.toNat_ofNat']
    omega
  have hc : (low ≤ UInt8.ofNat (m + 128) && UInt8.ofNat (m + 128) ≤ high) = true := by
    simp only [Bool.and_eq_true, decide_eq_true_eq, UInt8.le_iff_toNat_le, hb]
    exact ⟨hl, hh⟩
  have hs : (m + 128) % 64 = m := by omega
  simp only [next, hc, if_true, hb, hs]

theorem next_tail {missing bits m : Nat} (hm : m < 64) :
    next (some ⟨missing + 2, 0x80, 0xBF, bits⟩) (UInt8.ofNat (m + 128)) =
      ([], some ⟨missing + 1, 0x80, 0xBF, bits * 64 + m⟩) :=
  @next_some (missing + 2) bits m 0x80 0xBF hm (Nat.le_add_left 128 m)
    (Nat.add_le_add_right (Nat.le_of_lt_succ hm) 128)

theorem next_last {bits m : Nat} (hm : m < 64) :
    next (some ⟨1, 0x80, 0xBF, bits⟩) (UInt8.ofNat (m + 128)) =
      ([some (Char.ofNat (bits * 64 + m))], none) :=
  @next_some 1 bits m 0x80 0xBF hm (Nat.le_add_left 128 m)
    (Nat.add_le_add_right (Nat.le_of_lt_succ hm) 128)

theorem decodeOnto_open {done : List (Option Char)} {p : Option Pending} {b : Byte} {q : Pending}
    (h : next p b = ([], some q)) (rest : List Byte) :
    decodeOnto done p (b :: rest) = decodeOnto done (some q) rest := by
  simp [decodeOnto, h]

theorem decodeOnto_close {done : List (Option Char)} {p : Option Pending} {b : Byte} {c : Char}
    (h : next p b = ([some c], none)) (rest : List Byte) :
    decodeOnto done p (b :: rest) = decodeOnto (some c :: done) none rest := by
  simp [decodeOnto, h]

theorem decodeOnto_char (done : List (Option Char)) (c : Char) (rest : List Byte) :
    decodeOnto done none (String.utf8EncodeChar c ++ rest) =
      decodeOnto (some c :: done) none rest := by
  have hv : c.val.toNat < 0xD800 ∨ 0xDFFF < c.val.toNat ∧ c.val.toNat < 0x110000 := c.valid
  have hc : Char.ofNat c.val.toNat = c := Char.ofNat_toNat c
  unfold String.utf8EncodeChar
  generalize c.val.toNat = v at hv hc
  dsimp only
  split
  · next h =>
    have hb : (UInt8.ofNat v).toNat = v := by
      simp only [UInt8.toNat_ofNat']
      omega
    have hl : UInt8.ofNat v < 0x80 := by
      rw [UInt8.lt_iff_toNat_lt, hb]
      exact Nat.lt_of_le_of_lt h (by decide)
    have ht : Byte.toChar (UInt8.ofNat v) = c := by
      rw [← hc, ← Char.ofNat_toNat (Byte.toChar (UInt8.ofNat v))]
      exact congrArg Char.ofNat hb
    refine decodeOnto_close ?_ rest
    simp only [next, first, hl, if_true, ht]
  · split
    · next h₁ h₂ =>
      have open₁ := first_two (v / 64 % 32) (by omega) (by omega)
      have close : next (some ⟨1, 0x80, 0xBF, v / 64 % 32⟩) _ = _ :=
        next_last (Nat.mod_lt v (by decide : 0 < 64))
      rw [show v / 64 % 32 * 64 + v % 64 = v by omega, hc] at close
      simp only [List.cons_append, List.nil_append, decodeOnto_open open₁, decodeOnto_close close]
    · split
      · next h₁ h₂ h₃ =>
        have open₁ := first_three (v / 4096 % 16) (by omega)
        have open₂ : next (some ⟨2, _, _, v / 4096 % 16⟩) _ = _ :=
          next_some (Nat.mod_lt (v / 64) (by decide : 0 < 64))
            (by show (if v / 4096 % 16 = 0 then (0xA0 : Byte) else 0x80).toNat ≤ _
                split
                · simp
                  omega
                · simp)
            (by show _ ≤ (if v / 4096 % 16 = 13 then (0x9F : Byte) else 0xBF).toNat
                split <;> (simp; omega))
        have close : next (some ⟨1, 0x80, 0xBF, v / 4096 % 16 * 64 + v / 64 % 64⟩) _ = _ :=
          next_last (Nat.mod_lt v (by decide : 0 < 64))
        rw [show (v / 4096 % 16 * 64 + v / 64 % 64) * 64 + v % 64 = v by omega, hc] at close
        simp only [List.cons_append, List.nil_append, decodeOnto_open open₁, decodeOnto_open open₂,
          decodeOnto_close close]
      · next h₁ h₂ h₃ =>
        have open₁ := first_four (v / 262144 % 8) (by omega)
        have open₂ : next (some ⟨3, _, _, v / 262144 % 8⟩) _ = _ :=
          next_some (Nat.mod_lt (v / 4096) (by decide : 0 < 64))
            (by show (if v / 262144 % 8 = 0 then (0x90 : Byte) else 0x80).toNat ≤ _
                split
                · simp
                  omega
                · simp)
            (by show _ ≤ (if v / 262144 % 8 = 4 then (0x8F : Byte) else 0xBF).toNat
                split <;> (simp; omega))
        have open₃ : next (some ⟨2, 0x80, 0xBF, v / 262144 % 8 * 64 + v / 4096 % 64⟩) _ = _ :=
          next_tail (Nat.mod_lt (v / 64) (by decide : 0 < 64))
        have close : next (some ⟨1, 0x80, 0xBF,
            (v / 262144 % 8 * 64 + v / 4096 % 64) * 64 + v / 64 % 64⟩) _ = _ :=
          next_last (Nat.mod_lt v (by decide : 0 < 64))
        rw [show ((v / 262144 % 8 * 64 + v / 4096 % 64) * 64 + v / 64 % 64) * 64 + v % 64 = v by
          omega, hc] at close
        simp only [List.cons_append, List.nil_append, decodeOnto_open open₁, decodeOnto_open open₂,
          decodeOnto_open open₃, decodeOnto_close close]

theorem decode_char_append (c : Char) (rest : List Byte) :
    decode (String.utf8EncodeChar c ++ rest) = some c :: decode rest := by
  unfold decode
  rw [decodeOnto_char, decodeOnto_eq]
  simp

/-- What was encoded is read back character by character. -/
theorem decode_encode (text : String) : decode (encode text) = text.toList.map some := by
  rw [encode_eq]
  induction text.toList with
  | nil => rfl
  | cons c cs ih => rw [List.flatMap_cons, decode_char_append, ih, List.map_cons]

theorem lossy_encode (text : String) : lossy (encode text) = text := by
  simp [lossy, decode_encode, Function.comp_def]

theorem strict?_encode (text : String) : strict? (encode text) = some text := by
  simp [strict?, decode_encode, lossy_encode]

end DefLang.Text.Utf8
