import DefLang.Proofs.Text.Ascii

namespace DefLang

def Byte.isContinuation (b : Byte) : Bool := 0x80 ≤ b && b ≤ 0xBF

namespace Text.Utf8

variable {b : Byte} {bytes more : List Byte} {chars : List Char}

theorem encode_ofList_append (chars more : List Char) :
    encode (String.ofList (chars ++ more)) =
      encode (String.ofList chars) ++ encode (String.ofList more) := by
  rw [String.ofList_append, encode_append]

/-- The first byte of a character says how many there are. It continues none. -/
theorem countP_isContinuation_utf8EncodeChar (c : Char) :
    (String.utf8EncodeChar c).countP Byte.isContinuation + 1 =
      (String.utf8EncodeChar c).length := by
  have within (k : Nat) (h : 128 ≤ k % 256 ∧ k % 256 ≤ 191) :
      Byte.isContinuation (UInt8.ofNat k) = true := by
    simp only [Byte.isContinuation, Bool.and_eq_true, decide_eq_true_eq, UInt8.le_iff_toNat_le,
      UInt8.toNat_ofNat']
    exact h
  have outside (k : Nat) (h : k % 256 < 128 ∨ 191 < k % 256) :
      Byte.isContinuation (UInt8.ofNat k) = false := by
    simp only [Byte.isContinuation, Bool.and_eq_false_iff, decide_eq_false_iff_not,
      UInt8.le_iff_toNat_le, UInt8.toNat_ofNat']
    show ¬128 ≤ k % 256 ∨ ¬k % 256 ≤ 191
    omega
  have valid : c.val.toNat < 0x110000 := by
    rcases c.valid with h | h
    · exact Nat.lt_trans h (by decide)
    · exact h.2
  unfold String.utf8EncodeChar
  generalize c.val.toNat = v at valid
  dsimp only
  have tail (k : Nat) : Byte.isContinuation (UInt8.ofNat (k % 64 + 128)) = true :=
    within _ (by omega)
  split
  · simp only [List.countP_cons, List.countP_nil, outside v (by omega)]
    rfl
  · split
    · simp only [List.countP_cons, List.countP_nil, outside (v / 64 % 32 + 192) (by omega), tail]
      rfl
    · split
      · simp only [List.countP_cons, List.countP_nil, outside (v / 4096 % 16 + 224) (by omega),
          tail]
        rfl
      · simp only [List.countP_cons, List.countP_nil, outside (v / 262144 % 8 + 240) (by omega),
          tail]
        rfl

/-- As many bytes continue a character as there are bytes more than characters. -/
theorem countP_isContinuation_encode (chars : List Char) :
    (encode (String.ofList chars)).countP Byte.isContinuation + chars.length =
      (encode (String.ofList chars)).length := by
  induction chars with
  | nil => rfl
  | cons c chars ih =>
    have first := countP_isContinuation_utf8EncodeChar c
    rw [encode_ofList_cons, List.countP_append, List.length_append, List.length_cons]
    omega

theorem countP_isContinuation_of_ascii (h : ∀ c ∈ chars, c.toNat < 0x80) :
    (encode (String.ofList chars)).countP Byte.isContinuation = 0 := by
  induction chars with
  | nil => rfl
  | cons c chars ih =>
    obtain ⟨hc, hchars⟩ := List.forall_mem_cons.1 h
    have one : c.utf8Size = 1 :=
      Char.utf8Size_eq_one_iff.2 (UInt32.le_iff_toNat_le.2 (Nat.le_of_lt_succ hc))
    have first := countP_isContinuation_utf8EncodeChar c
    rw [String.length_utf8EncodeChar, one] at first
    rw [encode_ofList_cons, List.countP_append, ih hchars]
    omega

theorem count_newline_utf8EncodeChar (c : Char) :
    (String.utf8EncodeChar c).count Byte.newline = if c = '\n' then 1 else 0 := by
  split
  · next h =>
    subst h
    rfl
  · next h =>
    rw [List.count_eq_zero]
    exact fun mem => h (eq_toChar_of_mem_utf8EncodeChar mem (by decide))

theorem count_newline_encode (chars : List Char) :
    (encode (String.ofList chars)).count Byte.newline = chars.count '\n' := by
  induction chars with
  | nil => rfl
  | cons c chars ih =>
    rw [encode_ofList_cons, List.count_append, count_newline_utf8EncodeChar, ih, List.count_cons,
      Nat.add_comm]
    simp

/-- A byte of ASCII is not part of a longer character. -/
theorem utf8EncodeChar_eq_of_mem {c : Char} (h : b ∈ String.utf8EncodeChar c) (hb : b < 0x80) :
    String.utf8EncodeChar c = [b] := by
  rw [eq_toChar_of_mem_utf8EncodeChar h hb, utf8EncodeChar_toChar b hb]

/-- A character begins with every byte of ASCII, and after every one. -/
theorem exists_boundary (h : encode (String.ofList chars) = bytes ++ b :: more)
    (ascii : b < 0x80 ∨ ∀ last ∈ bytes.getLast?, last < 0x80) :
    ∃ front c back, chars = front ++ c :: back ∧ encode (String.ofList front) = bytes := by
  induction chars generalizing bytes with
  | nil => simp [encode_eq] at h
  | cons c chars ih =>
    by_cases start : bytes = []
    · exact ⟨[], c, chars, rfl, by rw [start]; rfl⟩
    rw [encode_ofList_cons] at h
    by_cases whole : String.utf8EncodeChar c <+: bytes
    · -- the byte is one of a later character
      obtain ⟨rest, rfl⟩ := whole
      rw [List.append_assoc] at h
      have ascii' : b < 0x80 ∨ ∀ last ∈ rest.getLast?, last < 0x80 := by
        refine ascii.imp_right fun lasts last mem => lasts last ?_
        rw [List.getLast?_append, Option.mem_def.1 mem]
        rfl
      obtain ⟨front, next, back, rfl, encoded⟩ := ih (List.append_cancel_left h) ascii'
      exact ⟨c :: front, next, back, rfl, by rw [encode_ofList_cons, encoded]⟩
    · -- the byte is one of this character, and so is one before it
      exfalso
      have inside : ∃ rest, String.utf8EncodeChar c = bytes ++ b :: rest := by
        obtain ⟨rest, taken⟩ := (List.prefix_or_prefix_of_prefix ⟨_, h⟩ ⟨_, rfl⟩).resolve_left whole
        rw [← taken, List.append_assoc] at h
        cases rest with
        | nil => exact absurd ⟨[], by rw [← taken, List.append_nil, List.append_nil]⟩ whole
        | cons d rest =>
          obtain ⟨rfl, -⟩ := List.cons_eq_cons.1 (List.append_cancel_left h)
          exact ⟨rest, taken.symm⟩
      obtain ⟨rest, inside⟩ := inside
      obtain ⟨a, mem, ha⟩ : ∃ a ∈ String.utf8EncodeChar c, a < 0x80 := by
        rw [inside]
        rcases ascii with hb | lasts
        · exact ⟨b, by simp, hb⟩
        · have last := List.getLast?_eq_some_getLast start
          exact ⟨_, List.mem_append_left _ (List.getLast_mem start), lasts _ last⟩
      have alone := congrArg List.length (inside.symm.trans (utf8EncodeChar_eq_of_mem mem ha))
      have some := List.length_pos_iff.2 start
      simp only [List.length_append, List.length_cons, List.length_nil] at alone
      omega

end Text.Utf8

end DefLang
