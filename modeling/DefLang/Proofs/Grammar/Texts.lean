import DefLang.Proofs.Grammar.Spelling
import DefLang.Proofs.Lexer.Rendering
import DefLang.Tree.Shape

namespace DefLang

theorem Sign.isCanonical_curlyOpen : IsCanonical ⟨.curlyOpen, some "\x7b"⟩ :=
  @IsCanonical.mark 123 .curlyOpen rfl

theorem Sign.isCanonical_curlyClose : IsCanonical ⟨.curlyClose, some "\x7d"⟩ :=
  @IsCanonical.mark 125 .curlyClose rfl

namespace TypeExpr

mutual

def IsSpellable : TypeExpr → Prop
  | named name _ => Sign.IsCanonical ⟨.identifier, some name⟩
  | function argument result => argument.IsSpellable ∧ result.IsSpellable
  | struct fields => AreSpellable fields

def AreSpellable : List (Field TypeExpr) → Prop
  | [] => True
  | ⟨name, type⟩ :: fields =>
    Sign.IsCanonical ⟨.declaration, some name⟩ ∧ type.IsSpellable ∧ AreSpellable fields

end

end TypeExpr

namespace Node

mutual

/-- The literals and names in the tree are such as the source can have. -/
def IsSpellable : Node → Prop
  | root statements => AreSpellable statements
  | atom name => Sign.IsCanonical ⟨.atom, some name⟩
  | integer text => Sign.IsCanonical ⟨.integer, some text⟩
  | float text => Sign.IsCanonical ⟨.float, some text⟩
  | string text => Sign.IsCanonical ⟨.string, some text⟩
  | definitionEnd => True
  | functionReturn value => value.IsSpellable
  | moduleDefinition name body =>
    Sign.IsCanonical ⟨.declaration, some name⟩ ∧ AreSpellable body
  | functionDefinition name signature body =>
    Sign.IsCanonical ⟨.declaration, some name⟩ ∧ signature.IsSpellable ∧ AreSpellable body

def AreSpellable : List Node → Prop
  | [] => True
  | node :: nodes => node.IsSpellable ∧ AreSpellable nodes

end

theorem areSpellable_iff {nodes : List Node} :
    AreSpellable nodes ↔ ∀ node ∈ nodes, node.IsSpellable := by
  induction nodes with
  | nil => simp [AreSpellable]
  | cons node nodes ih => rw [AreSpellable, ih, List.forall_mem_cons]

end Node

namespace Mark

def sign (m : Mark) : Sign :=
  let word? :=
    match m.kind with
    | .arrow => some "->"
    | .curlyOpen => some "\x7b"
    | .curlyClose => some "\x7d"
    | _ => none
  ⟨m.kind, m.content? <|> word?⟩

def IsReadable (m : Mark) : Prop := ∃ t : Token, t.sign.IsCanonical ∧ m.fits t

theorem source_eq {m : Mark} (h : m.kind ≠ .comment) :
    m.source = m.sign.text ++ if m.sign.kind.isLayout then "" else " " := by
  obtain ⟨gap, kind, content⟩ := m
  cases kind <;> cases content <;> first | rfl | exact absurd rfl h

/-- The marks can be written one after another: each of them is read back, and none is a comment,
after which nothing could stand. -/
structure AreLegible (marks : List Mark) : Prop where
  canonical : Canonical (marks.map sign)
  silent : ∀ m ∈ marks, m.kind ≠ .comment

theorem AreLegible.cons {m : Mark} {marks : List Mark} (more : AreLegible marks)
    (h : m.sign.IsCanonical) (hk : m.kind.isLayout = false) : AreLegible (m :: marks) := by
  have other {kind : Kind} (layout : kind.isLayout) : m.kind ≠ kind := by
    rintro rfl
    rw [layout] at hk
    cases hk
  refine ⟨.cons h (fun t _ => ⟨?_, ?_⟩) more.canonical,
    List.forall_mem_cons.2 ⟨other rfl, more.silent⟩⟩
  · exact fun newline => absurd newline (other rfl)
  · exact fun comment => absurd comment (other rfl)

theorem AreLegible.source_eq {marks : List Mark} (h : AreLegible marks) :
    String.join (marks.map source) = render (marks.map sign) := by
  have each : marks.map source = (marks.map sign).map fun s =>
      s.text ++ if s.kind.isLayout then "" else " " := by
    rw [List.map_map]
    exact List.map_congr_left fun m hm => Mark.source_eq (h.silent m hm)
  rw [each, render]

theorem fits_of_sign_eq {m : Mark} {t : Token} (h : t.sign = m.sign) : m.fits t := by
  obtain ⟨kind, value⟩ := Sign.mk.inj h
  refine fits_iff.2 ⟨kind, ?_⟩
  intro text ht
  have value : t.value = some text := by rw [value, Option.mem_def.1 ht]; rfl
  rw [Token.content, value, Option.getD_some]

theorem IsReadable.isCanonical {gap : Gap} {kind : Kind} {text : String}
    (h : (⟨gap, kind, some text⟩ : Mark).IsReadable) (valued : ¬Sign.IsCanonical ⟨kind, none⟩) :
    Sign.IsCanonical ⟨kind, some text⟩ := by
  obtain ⟨t, canonical, fits⟩ := h
  obtain ⟨hk, content⟩ := fits_iff.1 fits
  have content : t.content = text := content text rfl
  rw [Token.sign, hk] at canonical
  cases hv : t.value with
  | none =>
    rw [hv] at canonical
    exact absurd canonical valued
  | some value =>
    rw [Token.content, hv, Option.getD_some] at content
    rwa [hv, content] at canonical

end Mark

namespace TypeExpr

open Mark (AreLegible)

mutual

theorem isSpellable_of_readable : ∀ type : TypeExpr,
    (∀ m ∈ type.marks, m.IsReadable) → type.IsSpellable
  | named name _, h =>
    (h ⟨.nothing, .identifier, some name⟩ List.mem_cons_self).isCanonical (by rintro ⟨⟩)
  | function argument result, h => by
    obtain ⟨first, second⟩ := List.forall_mem_append.1 h
    exact ⟨isSpellable_of_readable argument first,
      isSpellable_of_readable result (List.forall_mem_cons.1 second).2⟩
  | struct fields, h => by
    obtain ⟨-, inside⟩ := List.forall_mem_cons.1 h
    exact areSpellable_of_readable fields (List.forall_mem_append.1 inside).1

theorem areSpellable_of_readable : ∀ fields : List (Field TypeExpr),
    (∀ m ∈ fieldMarks fields, m.IsReadable) → AreSpellable fields
  | [], _ => trivial
  | ⟨name, type⟩ :: fields, h => by
    obtain ⟨declaration, inside⟩ := List.forall_mem_cons.1 h
    obtain ⟨first, others⟩ := List.forall_mem_append.1 inside
    exact ⟨declaration.isCanonical (by rintro ⟨⟩), isSpellable_of_readable type first,
      areSpellable_of_readable fields others⟩

end

mutual

/-- A type can be written before whatever follows it. -/
theorem legible_marks_append : ∀ type : TypeExpr, type.IsSpellable →
    ∀ {marks : List Mark}, AreLegible marks → AreLegible (type.marks ++ marks)
  | named name _, h, _, more => more.cons h rfl
  | function argument result, h, marks, more => by
    have arrow : AreLegible (⟨.nothing, .arrow, none⟩ :: (result.marks ++ marks)) :=
      (legible_marks_append result h.2 more).cons .arrow rfl
    rw [TypeExpr.marks, List.append_assoc, List.cons_append]
    exact legible_marks_append argument h.1 arrow
  | struct fields, h, marks, more => by
    have close : AreLegible (⟨.layout, .curlyClose, none⟩ :: marks) :=
      more.cons Sign.isCanonical_curlyClose rfl
    have inside := legible_fieldMarks_append fields h close
    rw [TypeExpr.marks, List.append_assoc]
    exact inside.cons Sign.isCanonical_curlyOpen rfl

theorem legible_fieldMarks_append : ∀ fields : List (Field TypeExpr), AreSpellable fields →
    ∀ {marks : List Mark}, AreLegible marks → AreLegible (fieldMarks fields ++ marks)
  | [], _, _, more => more
  | ⟨name, type⟩ :: fields, h, marks, more => by
    have others := legible_fieldMarks_append fields h.2.2 more
    have first := legible_marks_append type h.2.1 others
    rw [fieldMarks, List.cons_append, List.cons_append, List.append_assoc]
    exact first.cons h.1 rfl

end

end TypeExpr

namespace Node

open Mark (AreLegible)

mutual

/-- All that a statement is read from is in its marks, so a tree that is read has such texts. -/
theorem isSpellable_of_readable : ∀ node : Node,
    (∀ m ∈ node.marks, m.IsReadable) → node.IsSpellable
  | root statements, h => areSpellable_of_readable statements h
  | atom _, h | integer _, h | float _, h | string _, h =>
    (List.forall_mem_singleton.1 h).isCanonical (by rintro ⟨⟩)
  | definitionEnd, _ => trivial
  | functionReturn value, h => isSpellable_of_readable value (List.forall_mem_cons.1 h).2
  | moduleDefinition name body, h => by
    simp only [marks, List.forall_mem_cons] at h
    obtain ⟨-, declaration, -, inside⟩ := h
    exact ⟨declaration.isCanonical (by rintro ⟨⟩), areSpellable_of_readable body inside⟩
  | functionDefinition name signature body, h => by
    simp only [marks, List.cons_append, List.forall_mem_cons, List.forall_mem_append] at h
    obtain ⟨-, declaration, types, -, inside⟩ := h
    exact ⟨declaration.isCanonical (by rintro ⟨⟩), signature.isSpellable_of_readable types,
      areSpellable_of_readable body inside⟩

theorem areSpellable_of_readable : ∀ nodes : List Node,
    (∀ m ∈ allMarks nodes, m.IsReadable) → AreSpellable nodes
  | [], _ => trivial
  | node :: nodes, h => by
    obtain ⟨first, others⟩ := List.forall_mem_append.1 h
    exact ⟨isSpellable_of_readable node first, areSpellable_of_readable nodes others⟩

end

/-- Every statement begins with the token that says what it is. -/
theorem exists_beginsStatement_mark {node : Node} (h : node.isWellFormed) :
    ∃ m marks, node.marks = m :: marks ∧ m.kind.beginsStatement := by
  cases node with
  | root statements => cases h
  | _ => exact ⟨_, _, rfl, rfl⟩

theorem isWellFormed_of_isBody {body : List Node} (h : isBody body) :
    ∀ node ∈ body, node.isWellFormed := by
  obtain ⟨init, last, rfl, -, formed, others⟩ := isBody_iff.1 h
  exact List.forall_mem_append.2 ⟨fun node hn => (others node hn).1, by simpa using formed⟩

/-- A body follows the newline of its header, which is not one that merges with a next one. -/
theorem legible_headerEnd {body : List Node} {marks : List Mark} (h : isBody body)
    (inside : AreLegible (allMarks body ++ marks)) :
    AreLegible (⟨.comments, .newline, none⟩ :: (allMarks body ++ marks)) := by
  cases body with
  | nil => cases h
  | cons node nodes =>
    obtain ⟨m, others, he, hm⟩ :=
      exists_beginsStatement_mark (isWellFormed_of_isBody h node List.mem_cons_self)
    rw [allMarks, he] at inside ⊢
    have other : m.kind ≠ .newline := by
      intro newline
      rw [newline] at hm
      cases hm
    refine ⟨.cons .newline (fun t ht => ⟨fun _ => ?_, ?_⟩) inside.canonical,
      List.forall_mem_cons.2 ⟨by simp, inside.silent⟩⟩
    · cases ht
      exact other
    · intro comment
      cases comment

mutual

/-- A statement can be written before whatever follows it. -/
theorem legible_marks_append : ∀ node : Node, node.isWellFormed → node.IsSpellable →
    ∀ {marks : List Mark}, AreLegible marks → AreLegible (node.marks ++ marks)
  | root _, formed, _, _, _ => by cases formed
  | atom _, _, h, _, more | integer _, _, h, _, more | float _, _, h, _, more
  | string _, _, h, _, more => more.cons h rfl
  | definitionEnd, _, _, _, more => more.cons .definitionEnd rfl
  | functionReturn value, formed, h, _, more =>
    (legible_marks_append value formed h more).cons .functionReturn rfl
  | moduleDefinition name body, formed, h, marks, more => by
    have inside := legible_allMarks_append body (isWellFormed_of_isBody formed) h.2 more
    have header : AreLegible (⟨.nothing, .declaration, some name⟩ :: _) :=
      (legible_headerEnd formed inside).cons h.1 rfl
    exact header.cons .moduleDefinition rfl
  | functionDefinition name signature body, formed, h, marks, more => by
    simp only [isWellFormed, Bool.and_eq_true] at formed
    have inside := legible_allMarks_append body (isWellFormed_of_isBody formed.2) h.2.2 more
    have types := signature.legible_marks_append h.2.1 (legible_headerEnd formed.2 inside)
    have header : AreLegible (⟨.nothing, .declaration, some name⟩ :: _) := types.cons h.1 rfl
    simp only [Node.marks, List.cons_append, List.append_assoc]
    exact header.cons .definition rfl

theorem legible_allMarks_append : ∀ nodes : List Node, (∀ node ∈ nodes, node.isWellFormed) →
    AreSpellable nodes → ∀ {marks : List Mark}, AreLegible marks →
      AreLegible (allMarks nodes ++ marks)
  | [], _, _, _, more => more
  | node :: nodes, formed, h, marks, more => by
    obtain ⟨first, others⟩ := List.forall_mem_cons.1 formed
    rw [allMarks, List.append_assoc]
    exact legible_marks_append node first h.1 (legible_allMarks_append nodes others h.2 more)

end

end Node

end DefLang
