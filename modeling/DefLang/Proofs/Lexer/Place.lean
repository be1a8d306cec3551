import DefLang.Byte
import DefLang.Position

namespace DefLang.Position

def lineAfter (before : List Byte) : Nat := before.count Byte.newline + 1

def columnAfter (before : List Byte) : Nat :=
  (before.reverse.takeWhile (· != Byte.newline)).length + 1

/-- The true place of whatever follows these bytes at the start of a source. -/
def after (file : String) (before : List Byte) : Position :=
  ⟨file, lineAfter before, columnAfter before⟩

theorem lineAfter_append (before more : List Byte) :
    lineAfter (before ++ more) = lineAfter before + more.count Byte.newline := by
  simp only [lineAfter, List.count_append]
  omega

theorem lineAfter_le (before : List Byte) : lineAfter before ≤ before.length + 1 :=
  Nat.succ_le_succ List.count_le_length

theorem columnAfter_le (before : List Byte) : columnAfter before ≤ before.length + 1 := by
  have hle := (List.takeWhile_sublist (· != Byte.newline) (l := before.reverse)).length_le
  rw [List.length_reverse] at hle
  exact Nat.succ_le_succ hle

theorem columnAfter_concat_newline (before : List Byte) :
    columnAfter (before ++ [Byte.newline]) = 1 := by
  simp [columnAfter]

theorem columnAfter_concat_of_ne (before : List Byte) {b : Byte} (h : b ≠ Byte.newline) :
    columnAfter (before ++ [b]) = columnAfter before + 1 := by
  simp [columnAfter, h]

theorem columnAfter_append_of_not_mem (before : List Byte) {more : List Byte}
    (h : Byte.newline ∉ more) :
    columnAfter (before ++ more) = columnAfter before + more.length := by
  induction more generalizing before with
  | nil => simp
  | cons b more ih =>
    have hb : b ≠ Byte.newline := fun e => h (e ▸ List.mem_cons_self)
    have hm : Byte.newline ∉ more := fun hm => h (List.mem_cons_of_mem b hm)
    rw [List.append_cons, ih (before ++ [b]) hm, columnAfter_concat_of_ne before hb,
      List.length_cons]
    omega

end DefLang.Position
