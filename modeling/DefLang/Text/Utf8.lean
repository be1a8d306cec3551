import DefLang.Byte

namespace DefLang.Text.Utf8

def encode (text : String) : List Byte := text.toUTF8.data.toList

/-- A character of which the first bytes are read: how many are missing, the bounds of the next
one, and the bits so far. -/
structure Pending where
  missing : Nat
  low : Byte
  high : Byte
  bits : Nat
deriving DecidableEq, Repr

/-- The bounds keep out overlong forms, surrogates and code points past the last plane. -/
def opening? (b : Byte) : Option Pending :=
  if 0xC2 ≤ b && b ≤ 0xDF then some ⟨1, 0x80, 0xBF, b.toNat % 32⟩
  else if b == 0xE0 then some ⟨2, 0xA0, 0xBF, b.toNat % 16⟩
  else if b == 0xED then some ⟨2, 0x80, 0x9F, b.toNat % 16⟩
  else if 0xE1 ≤ b && b ≤ 0xEF then some ⟨2, 0x80, 0xBF, b.toNat % 16⟩
  else if b == 0xF0 then some ⟨3, 0x90, 0xBF, b.toNat % 8⟩
  else if 0xF1 ≤ b && b ≤ 0xF3 then some ⟨3, 0x80, 0xBF, b.toNat % 8⟩
  else if b == 0xF4 then some ⟨3, 0x80, 0x8F, b.toNat % 8⟩
  else none

/-- The characters that a byte completes, `none` for a malformed one, and what it leaves open. -/
abbrev Progress := List (Option Char) × Option Pending

def first (b : Byte) : Progress :=
  if b < 0x80 then ([some b.toChar], none)
  else match opening? b with
    | some p => ([], some p)
    | none => ([none], none)

/-- A byte that cannot continue the open character ends it as malformed and is read afresh. -/
def next : Option Pending → Byte → Progress
  | none, b => first b
  | some p, b =>
    if p.low ≤ b && b ≤ p.high then
      let bits := p.bits * 64 + b.toNat % 64
      if p.missing ≤ 1 then ([some (Char.ofNat bits)], none)
      else ([], some ⟨p.missing - 1, 0x80, 0xBF, bits⟩)
    else
      (none :: (first b).1, (first b).2)

def decodeOnto (done : List (Option Char)) : Option Pending → List Byte → List (Option Char)
  | none, [] => done
  | some _, [] => none :: done
  | p, b :: rest => decodeOnto ((next p b).1.reverse ++ done) (next p b).2 rest

/-- The characters of a byte string. Each longest part that begins a character and cannot be
completed, and each byte that begins none, gives one `none`. -/
def decode (bytes : List Byte) : List (Option Char) := (decodeOnto [] none bytes).reverse

def replacement : Char := '\uFFFD'

def lossy (bytes : List Byte) : String :=
  String.ofList ((decode bytes).map (·.getD replacement))

def strict? (bytes : List Byte) : Option String :=
  if (decode bytes).contains none then none else some (lossy bytes)

theorem decodeOnto_eq (done : List (Option Char)) (p : Option Pending) (bytes : List Byte) :
    decodeOnto done p bytes = decodeOnto [] p bytes ++ done := by
  induction bytes generalizing done p with
  | nil => cases p <;> rfl
  | cons b rest ih =>
    simp only [decodeOnto]
    rw [ih ((next p b).1.reverse ++ done), ih ((next p b).1.reverse ++ [])]
    simp

theorem decode_cons_ascii {b : Byte} (h : b < 0x80) (rest : List Byte) :
    decode (b :: rest) = some b.toChar :: decode rest := by
  have hb : next none b = ([some b.toChar], none) := by simp [next, first, h]
  simp only [decode, decodeOnto, hb]
  rw [decodeOnto_eq]
  simp

theorem decode_ascii {bytes : List Byte} (h : ∀ b ∈ bytes, b < 0x80) :
    decode bytes = bytes.map (some ·.toChar) := by
  induction bytes with
  | nil => rfl
  | cons b rest ih =>
    rw [decode_cons_ascii (h b (by simp)), ih fun c hc => h c (by simp [hc])]
    rfl

theorem lossy_ascii {bytes : List Byte} (h : ∀ b ∈ bytes, b < 0x80) :
    lossy bytes = String.ofList (bytes.map (·.toChar)) := by
  simp [lossy, decode_ascii h, Function.comp_def]

end DefLang.Text.Utf8
