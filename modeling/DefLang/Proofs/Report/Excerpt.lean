import DefLang.Excerpt
import DefLang.Proofs.Lexer.LineBreak
import DefLang.Proofs.Text.Boundary

namespace DefLang

open Position (lineAfter columnAfter)

variable {c : Char} {lines before back : List Char}

namespace Text

open Utf8 (encode)

theorem dropWhile_append_cons {accept : Char → Bool} (h : accept c = false)
    (before after : List Char) :
    (before ++ c :: after).dropWhile accept = before.dropWhile accept ++ c :: after := by
  have stops : (c :: after).dropWhile accept = c :: after :=
    List.dropWhile_cons_of_neg (by simp [h])
  rw [List.dropWhile_append, stops]
  split
  · next all => rw [List.isEmpty_iff.1 all, List.nil_append]
  · rfl

theorem takeWhile_append_cons {accept : Char → Bool} (h : accept c = false)
    (before after : List Char) :
    (before ++ c :: after).takeWhile accept = before.takeWhile accept := by
  rw [List.takeWhile_append, List.takeWhile_cons_of_neg (by simp [h]), List.append_nil]
  split
  · next all => exact ((List.takeWhile_prefix accept).eq_of_length all).symm
  · rfl

def WholeLines (chars : List Char) : Prop := chars = [] ∨ chars.getLast? = some '\n'

theorem exists_wholeLines (chars : List Char) :
    ∃ lines before, chars = lines ++ before ∧ WholeLines lines ∧ '\n' ∉ before := by
  induction chars with
  | nil => exact ⟨[], [], rfl, .inl rfl, by simp⟩
  | cons c chars ih =>
    obtain ⟨lines, before, rfl, whole, within⟩ := ih
    rcases whole with rfl | last
    · by_cases hc : c = '\n'
      · exact ⟨[c], before, rfl, .inr (by rw [hc]; rfl), within⟩
      · exact ⟨[], c :: before, rfl, .inl rfl, by simp [Ne.symm hc, within]⟩
    · exact ⟨c :: lines, before, rfl, .inr (by simp [List.getLast?_cons, last]), within⟩

theorem WholeLines.tail (h : WholeLines (c :: lines)) : WholeLines lines := by
  cases lines with
  | nil => exact .inl rfl
  | cons d lines => exact .inr (by simpa [WholeLines, List.getLast?_cons_cons] using h)

theorem WholeLines.encode (h : WholeLines lines) :
    DefLang.WholeLines (encode (String.ofList lines)) := by
  rcases h with rfl | last
  · exact .inl rfl
  · obtain ⟨more, rfl⟩ := List.getLast?_eq_some_iff.1 last
    right
    rw [Utf8.encode_ofList_append]
    exact List.getLast?_concat

theorem newline_not_mem_encode (h : '\n' ∉ before) :
    Byte.newline ∉ Utf8.encode (String.ofList before) := by
  intro mem
  have := Utf8.toChar_mem_of_mem_encode mem (by decide)
  rw [String.toList_ofList] at this
  exact h this

/-- Whole lines are passed over to the line that they are followed by. -/
theorem lineAfter_lines (h : WholeLines lines) (rest : List Char) :
    lineAfter (lines.count '\n') (lines ++ rest) = some (rest.takeWhile (· != '\n')) := by
  induction lines with
  | nil => rfl
  | cons c lines ih =>
    by_cases hc : c = '\n'
    · subst hc
      rw [List.count_cons_self]
      exact (@lineAfter_append [] (by simp) _ _).trans (ih h.tail)
    · -- the line of this character goes on, as whole lines end in a newline
      have more : '\n' ∈ lines := by
        rcases h.tail with rfl | last
        · simp [WholeLines, hc] at h
        · exact List.mem_of_getLast? last
      obtain ⟨n, hn⟩ := Nat.exists_eq_succ_of_ne_zero (Nat.ne_of_gt (List.count_pos_iff.2 more))
      rw [List.count_cons_of_ne hc, ← ih h.tail, hn]
      simp [lineAfter, hc]

theorem trimEnd_append_cons (h : isWhiteSpace c = false) (before after : List Char) :
    trimEnd (before ++ c :: after) = before ++ c :: trimEnd after := by
  have reverse : (before ++ c :: after).reverse = after.reverse ++ c :: before.reverse := by simp
  rw [trimEnd, reverse, dropWhile_append_cons h]
  simp [trimEnd]

theorem dropReturn_append_cons (h : c ≠ '\r') (before after : List Char) :
    dropReturn (before ++ c :: after) = before ++ c :: dropReturn after := by
  unfold dropReturn
  cases after with
  | nil => simp [h]
  | cons d after =>
    have last : (before ++ c :: d :: after).getLast? = (d :: after).getLast? := by
      simp [List.getLast?_append, List.getLast?_cons]
    rw [last]
    split
    · rw [List.dropLast_append_cons, List.dropLast_cons_cons]
    · rfl

theorem trimEnd_dropReturn (line : List Char) : trimEnd (dropReturn line) = trimEnd line := by
  unfold dropReturn
  split
  · next last =>
    obtain ⟨more, rfl⟩ := List.getLast?_eq_some_iff.1 last
    simp [trimEnd, isWhiteSpace]
  · rfl

end Text

open Text.Utf8 (encode)

/-- The true place of a character, from the lines before its own and the characters before it on its
line. -/
theorem Position.after_encode (whole : Text.WholeLines lines) (within : '\n' ∉ before)
    (file : String) :
    Position.after file (encode (String.ofList (lines ++ before))) =
      ⟨file, lines.count '\n' + 1, (encode (String.ofList before)).length + 1⟩ := by
  have column := Position.columnAfter_append_of_not_mem [] (Text.newline_not_mem_encode within)
  have first : columnAfter [] = 1 := rfl
  rw [List.nil_append, first, Nat.add_comm] at column
  rw [Text.Utf8.encode_ofList_append, Position.after, whole.encode.columnAfter_append, column,
    lineAfter, ← Text.Utf8.encode_ofList_append, Text.Utf8.count_newline_encode, List.count_append,
    List.count_eq_zero.2 within, Nat.add_zero]

theorem isIndentation_of_isWhiteSpace (h : Text.isWhiteSpace c = false) :
    isIndentation c = false := by
  rw [← Bool.not_eq_true, isIndentation, Bool.or_eq_true, beq_iff_eq, beq_iff_eq]
  rintro (rfl | rfl) <;> cases h

def Excerpt.around (line : Nat) (before : List Char) (c : Char) (after : List Char) : Excerpt where
  line := line
  text := String.ofList (Text.trimEnd ((before ++ c :: after).dropWhile isIndentation))
  caret := (before.dropWhile isIndentation).length +
    (encode (String.ofList before)).countP Byte.isContinuation + 1

/-- The excerpt at the place of a character that is no white space. -/
theorem Excerpt.at?_after_encode {source : String}
    (split : source.toList = lines ++ before ++ c :: back) (whole : Text.WholeLines lines)
    (within : '\n' ∉ before) (shown : Text.isWhiteSpace c = false) (file : String) :
    Excerpt.at? source (Position.after file (encode (String.ofList (lines ++ before)))) =
      some (.around (lines.count '\n' + 1) before c (back.takeWhile (· != '\n'))) := by
  have notNewline : c ≠ '\n' := by
    rintro rfl
    cases shown
  have notReturn : c ≠ '\r' := by
    rintro rfl
    cases shown
  have notIndented := isIndentation_of_isWhiteSpace shown
  have line : (before ++ c :: back).takeWhile (· != '\n') =
      before ++ c :: back.takeWhile (· != '\n') := by
    rw [List.takeWhile_append_of_pos, List.takeWhile_cons_of_pos (by simpa using notNewline)]
    intro d mem
    simpa using ne_of_mem_of_not_mem mem within
  have text (after : List Char) :
      Text.trimEnd ((before ++ c :: Text.dropReturn after).dropWhile isIndentation) =
        Text.trimEnd ((before ++ c :: after).dropWhile isIndentation) := by
    rw [Text.dropWhile_append_cons notIndented, Text.dropWhile_append_cons notIndented,
      Text.trimEnd_append_cons shown, Text.trimEnd_append_cons shown, Text.trimEnd_dropReturn]
  have bytes := Text.Utf8.countP_isContinuation_encode before
  have indented := congrArg List.length
    (List.takeWhile_append_dropWhile (p := isIndentation) (l := before))
  rw [List.length_append] at indented
  rw [Excerpt.at?, Position.after_encode whole within, Text.line?, split, List.append_assoc,
    Text.lineAfter_lines whole, line, Option.map_some, Option.map_some, Option.some.injEq,
    Text.dropReturn_append_cons notReturn, String.toList_ofList]
  dsimp only
  rw [text, Text.takeWhile_append_cons notIndented, Excerpt.around, Excerpt.mk.injEq]
  refine ⟨rfl, rfl, ?_⟩
  omega

namespace Excerpt

def label (line : Nat) : String := toString line ++ " | "

/-- Two rows that show a character and mark it: its line, without indentation and without white
space at the end, and a caret. The caret stands to the right of the character by the continuation
bytes before that. -/
structure Marks (line : Nat) (before : List Char) (c : Char) (after : List Char)
    (row mark : String) : Prop where
  single : '\n' ∉ row.toList ∧ '\n' ∉ mark.toList
  shows : row = label line ++
    String.ofList (Text.trimEnd ((before ++ c :: after).dropWhile isIndentation))
  caret : ∃ lead tail pad, row.toList = lead ++ c :: tail ∧
    lead = (label line).toList ++ before.dropWhile isIndentation ∧
    mark.toList = pad ++ ['^'] ∧ '^' ∉ pad ∧
    pad.length = lead.length + (encode (String.ofList before)).countP Byte.isContinuation ∧
    ((∀ b ∈ before, b.toNat < 0x80) → pad.length = lead.length)

theorem newline_not_mem_label (line : Nat) : '\n' ∉ (label line).toList := by
  intro mem
  rw [label, String.toList_append, Nat.toString_eq_repr, Nat.repr_eq_ofList_toDigits,
    String.toList_ofList] at mem
  rcases List.mem_append.1 mem with mem | mem
  · have digit := Nat.isDigit_of_mem_toDigits (by decide) (by decide) mem
    cases digit
  · simp at mem

theorem mem_of_mem_trimEnd {line : List Char} (h : c ∈ Text.trimEnd line) : c ∈ line :=
  List.mem_reverse.1 ((List.dropWhile_sublist _).mem (List.mem_reverse.1 h))

theorem marks_around {line : Nat} {after : List Char} (shown : Text.isWhiteSpace c = false)
    (within : '\n' ∉ before ++ c :: after) :
    let e := around line before c after
    Marks line before c after s!"{e.line} | {e.text}"
      (e.margin ++ " " ++ String.ofList (List.replicate (e.caret - 1) '-') ++ "^") := by
  intro e
  have text : e.text.toList =
      Text.trimEnd ((before ++ c :: after).dropWhile isIndentation) := String.toList_ofList
  have kept : '\n' ∉ e.text.toList := by
    rw [text]
    exact fun mem => within ((List.dropWhile_sublist _).mem (mem_of_mem_trimEnd mem))
  rw [Text.dropWhile_append_cons (isIndentation_of_isWhiteSpace shown),
    Text.trimEnd_append_cons shown] at text
  have row : (s!"{e.line} | {e.text}").toList = (label line).toList ++ e.text.toList :=
    String.toList_append
  let pad := List.replicate ((toString line).length + 1) ' ' ++ '|' :: ' ' ::
    List.replicate (e.caret - 1) '-'
  have mark : (e.margin ++ " " ++ String.ofList (List.replicate (e.caret - 1) '-') ++ "^").toList =
      pad ++ ['^'] := by
    simp [margin, pad, String.toList_append, e, around]
  let lead := (label line).toList ++ before.dropWhile isIndentation
  have place : pad.length = lead.length +
      (encode (String.ofList before)).countP Byte.isContinuation := by
    have width : (label line).length = (toString line).length + 3 := String.length_append _ _
    simp only [pad, lead, List.length_append, List.length_cons, List.length_replicate,
      String.length_toList, width, e, around]
    omega
  constructor
  · rw [row, mark]
    exact ⟨by simp [newline_not_mem_label, kept], by simp [pad]⟩
  · rfl
  · refine ⟨lead, Text.trimEnd after, pad, ?_, rfl, mark, by simp [pad], place, fun ascii => ?_⟩
    · rw [row, text, ← List.append_assoc]
    · rw [place, Text.Utf8.countP_isContinuation_of_ascii ascii, Nat.add_zero]

end Excerpt

/-- A report ends in the rows that mark the character that it is about. -/
theorem Diagnostic.render_marks {source : String} {d : Diagnostic} {line : Nat} {after : List Char}
    (at? : Excerpt.at? source d.position = some (.around line before c after))
    (fits : (Excerpt.around line before c after).caret ≤ Excerpt.maxCaret)
    (shown : Text.isWhiteSpace c = false) (within : '\n' ∉ before ++ c :: after) :
    ∃ above row mark, d.render source = .ok (above ++ "\n" ++ row ++ "\n" ++ mark ++ "\n") ∧
      Excerpt.Marks line before c after row mark := by
  refine ⟨d.heading ++ (Excerpt.around line before c after).margin, _, _, ?_,
    Excerpt.marks_around shown within⟩
  rw [Diagnostic.render, at?]
  dsimp only
  rw [Excerpt.draw, if_pos fits, Except.map, Except.ok.injEq, Excerpt.caretRow]
  simp only [← String.toList_inj, String.toList_append, List.append_assoc]
  rfl

end DefLang
