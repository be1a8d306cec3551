import DefLang.Proofs.Grammar.TreeBounds

namespace DefLang

namespace Input

variable {input : Input} {cursor stop : Nat}

/-- The tokens after a cursor are those up to another one, and those after that. -/
theorem rest_eq_append (h : cursor ≤ stop) :
    input.rest cursor = (input.tokens.extract cursor stop).toList ++ input.rest stop := by
  have split := List.take_append_drop (stop - cursor) (input.tokens.toList.drop cursor)
  rw [List.drop_drop, Nat.add_sub_of_le h] at split
  rw [Array.toList_extract, List.extract_eq_take_drop]
  exact split.symm

theorem spells_rest_iff (h : cursor ≤ stop) {options : Options} {marks : List Mark} :
    Spells options marks (input.rest cursor) (input.rest stop) ↔
      Written options marks (input.tokens.extract cursor stop).toList := by
  constructor
  · intro ⟨front, split, written⟩
    rw [rest_eq_append h] at split
    rwa [List.append_cancel_right split]
  · intro written
    exact ⟨_, rest_eq_append h, written⟩

theorem eq_of_rest_eq (hc : cursor ≤ input.tokens.size) (hs : stop ≤ input.tokens.size)
    (h : input.rest cursor = input.rest stop) : cursor = stop := by
  have lengths := congrArg List.length h
  rw [length_rest, length_rest] at lengths
  omega

end Input

namespace Parse

variable {input : Input} {room cursor stop : Nat} {e : TypeExpr}

/-- A type ends on its last token. -/
theorem cursor_of_typeExpr (h : (typeExpr room input cursor).result = .ok e) :
    cursor ≤ (typeExpr room input cursor).cursor ∧
      (typeExpr room input cursor).cursor ≤ input.tokens.size :=
  ⟨(typeExpr_isLocal room).forward input cursor,
    (typeExpr_leads room input cursor trivial).cursor_le h (Standing.le_refl _)⟩

theorem typeExpr_stops_iff :
    ((typeExpr room input cursor).result = .ok e ∧ (typeExpr room input cursor).cursor = stop) ↔
      e.isPlain ∧ e.depth ≤ room ∧ cursor ≤ stop ∧ stop ≤ input.tokens.size ∧
        Written input.options e.marks (input.tokens.extract cursor stop).toList ∧
        Grammar.isArrow input.tokens[stop]? = false := by
  have recognizes := @Recognizes.typeExpr input room cursor e (input.rest stop)
  rw [Grammar.type, Input.head?_rest] at recognizes
  constructor
  · rintro ⟨given, rfl⟩
    obtain ⟨forward, within⟩ := cursor_of_typeExpr given
    obtain ⟨plain, deep, spells, follows⟩ := recognizes.1 ⟨given, rfl⟩
    exact ⟨plain, deep, forward, within, (Input.spells_rest_iff forward).1 spells, follows⟩
  · intro ⟨plain, deep, forward, within, written, follows⟩
    have spells := (Input.spells_rest_iff forward).2 written
    obtain ⟨given, left⟩ := recognizes.2 ⟨plain, deep, spells, follows⟩
    exact ⟨given, Input.eq_of_rest_eq (cursor_of_typeExpr given).2 within left⟩

end Parse

/-- A type is read from a cursor to another one exactly if it is as deep as there is room for, the
tokens between the two are what it is written with, and no arrow follows them. -/
theorem Parser.reads_type_iff (p : Parser) (levels stop : Nat) (e : TypeExpr) :
    let reply := p.answer (.within levels .type)
    (reply.result = .ok (.type e) ∧ reply.parser.cursor = stop) ↔
      e.isPlain ∧ e.depth ≤ maxNesting - (p.depth + levels) ∧
        p.cursor ≤ stop ∧ stop ≤ p.input.tokens.size ∧
        Written p.input.options e.marks (p.input.tokens.extract p.cursor stop).toList ∧
        ∀ t, p.input.tokens[stop]? = some t → t.kind ≠ .arrow := by
  intro reply
  have noArrow : Grammar.isArrow p.input.tokens[stop]? = false ↔
      ∀ t, p.input.tokens[stop]? = some t → t.kind ≠ .arrow := by
    cases p.input.tokens[stop]? <;> simp [Grammar.isArrow]
  rw [← noArrow, ← Parse.typeExpr_stops_iff]
  constructor
  · rintro ⟨given, stops⟩
    obtain ⟨_, same, read⟩ := exists_of_within Parse.typeExpr answer_type given
    cases same
    have made := within_of_ok given
    rw [answer_type] at made
    refine ⟨read, ?_⟩
    rw [← stops]
    exact (congrArg (fun r => r.parser.cursor) made).symm
  · rintro ⟨read, stops⟩
    -- no type is read where there is no room for one
    have room : p.depth + levels ≤ maxNesting := by
      have deep := (Parse.typeExpr_bounds read).2
      have := e.depth_pos
      omega
    have made : reply = _ := within_of_le room
    rw [answer_type] at made
    rw [made]
    exact ⟨congrArg (Except.map Answer.type) read, stops⟩

end DefLang
